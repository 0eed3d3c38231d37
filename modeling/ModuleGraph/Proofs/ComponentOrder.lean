import Mathlib.Order.Defs.Unbundled
import ModuleGraph.Proofs.Directory

/-!
# Paths compared by their components

Containment is decided character by character, at a separator. It says the same of components, the
empty ones counted: a path lies within another exactly if its components begin with those of the
other. No two paths have the same components, so containment orders paths as beginnings order lists.
-/

namespace ModuleGraph.Path

variable {p q r : String}

theorem components_injective : Function.Injective components := by
  intro p q h
  have hjoined : p.toList ++ [separator] = q.toList ++ [separator] := by
    rw [← Text.flatMap_splitAt, ← Text.flatMap_splitAt]
    exact congrArg (List.flatMap (· ++ [separator])) h
  exact String.toList_inj.1 (List.append_cancel_right hjoined)

/-- What lies below a directory has at least one component more. -/
theorem components_of_isAncestor (h : isAncestor q p = true) :
    ∃ rest, rest ≠ [] ∧ components p = components q ++ rest := by
  obtain ⟨rest, hrest⟩ := isAncestor_iff.1 h
  refine ⟨Text.splitAt separator rest, Text.splitAt_ne_nil separator rest, ?_⟩
  rw [components, hrest, Text.splitAt_append, components]

theorem isWithin_iff_prefix_components :
    isWithin p q = true ↔ components q <+: components p := by
  refine ⟨fun h => ?_, isWithin_of_prefix_components⟩
  rcases isWithin_iff.1 h with rfl | h
  · exact List.prefix_rfl
  · obtain ⟨rest, -, hrest⟩ := components_of_isAncestor h
    exact ⟨rest, hrest.symm⟩

theorem isAncestor_iff_prefix_components_and_ne :
    isAncestor q p = true ↔ components q <+: components p ∧ components q ≠ components p := by
  constructor
  · intro h
    obtain ⟨rest, hne, hrest⟩ := components_of_isAncestor h
    refine ⟨⟨rest, hrest.symm⟩, fun heq => hne ?_⟩
    rw [heq] at hrest
    exact List.self_eq_append_right.1 hrest
  · rintro ⟨hpre, hne⟩
    rcases isWithin_iff.1 (isWithin_of_prefix_components hpre) with rfl | h
    · exact absurd rfl hne
    · exact h

theorem isWithin_antisymm (hq : isWithin p q = true) (hp : isWithin q p = true) : p = q := by
  rw [isWithin_iff_prefix_components] at hq hp
  exact components_injective (hp.eq_of_length_le hq.length_le)

instance isPartialOrder_isWithin : IsPartialOrder String (isWithin · · = true) where
  refl := isWithin_self
  trans _ _ _ := isWithin_trans
  antisymm _ _ := isWithin_antisymm

theorem isAncestor_iff_isWithin_and_not :
    isAncestor q p = true ↔ isWithin p q = true ∧ ¬isWithin q p = true := by
  rw [isAncestor_iff_prefix_components_and_ne, isWithin_iff_prefix_components, isWithin_iff_prefix_components]
  refine and_congr_right fun hpre => not_congr ⟨fun heq => heq ▸ List.prefix_rfl, fun hpre' => ?_⟩
  exact hpre.eq_of_length_le hpre'.length_le

/-- Containment of paths is the order of their components by beginnings: the one that is within the
other has all of its components in front, more than these if it is below it. Of two paths that hold
a third, one holds the other. -/
theorem containment_orders_components :
    (∀ p q, isWithin p q = true ↔ components q <+: components p) ∧
    (∀ p q, isAncestor q p = true ↔ components q <+: components p ∧ components q ≠ components p) ∧
    IsPartialOrder String (isWithin · · = true) ∧
    (∀ p q, isAncestor q p = true ↔ isWithin p q = true ∧ ¬isWithin q p = true) ∧
    ∀ p q r, isWithin p q = true → isWithin p r = true →
      isWithin r q = true ∨ isWithin q r = true := by
  refine ⟨?_, ?_, isPartialOrder_isWithin, ?_, ?_⟩
  · intro p q
    exact isWithin_iff_prefix_components
  · intro p q
    exact isAncestor_iff_prefix_components_and_ne
  · intro p q
    exact isAncestor_iff_isWithin_and_not
  · intro p q r hq hr
    exact isWithin_or_isWithin hq hr

end ModuleGraph.Path
