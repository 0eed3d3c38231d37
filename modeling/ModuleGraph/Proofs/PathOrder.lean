import ModuleGraph.Path
import Mathlib.Data.List.Basic

/-!
# Paths ordered by containment

A path lies within another exactly if, each with a separator put behind it, the one begins with the
other. So containment is an order, and of two directories that hold the same path one lies within
the other.
-/

namespace ModuleGraph.Path

variable {p q r : String}

theorem isWithin_iff : isWithin p q = true ↔ p = q ∨ isAncestor q p = true := by
  simp [isWithin]

theorem isWithin_eq_false_iff : isWithin p q = false ↔ p ≠ q ∧ isAncestor q p = false := by
  simp [isWithin]

theorem isWithin_iff_prefix_concat :
    isWithin p q = true ↔ q.toList ++ [separator] <+: p.toList ++ [separator] := by
  rw [isWithin_iff, isAncestor_iff]
  constructor
  · rintro (rfl | ⟨rest, h⟩)
    · exact List.prefix_rfl
    · exact ⟨rest ++ [separator], by simp [h]⟩
  · rintro ⟨rest, h⟩
    rcases List.eq_nil_or_concat rest with rfl | ⟨rest, c, rfl⟩
    · refine .inl (String.toList_inj.1 ?_)
      simpa using h.symm
    · refine .inr ⟨rest, ?_⟩
      have h' : (q.toList ++ separator :: rest) ++ [c] = p.toList ++ [separator] := by
        simpa using h
      exact (List.append_inj_left' h' rfl).symm

theorem isWithin_trans (hq : isWithin p q = true) (hr : isWithin q r = true) :
    isWithin p r = true := by
  rw [isWithin_iff_prefix_concat] at hq hr ⊢
  exact hr.trans hq

/-- Two directories that hold the same path are comparable. -/
theorem isWithin_or_isWithin (hq : isWithin p q = true) (hr : isWithin p r = true) :
    isWithin r q = true ∨ isWithin q r = true := by
  rw [isWithin_iff_prefix_concat] at hq hr ⊢
  rw [isWithin_iff_prefix_concat]
  exact List.prefix_or_prefix_of_prefix hq hr

end ModuleGraph.Path
