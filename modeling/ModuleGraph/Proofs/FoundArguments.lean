import ModuleGraph.Proofs.ArgumentWords

/-!
# What is found in arguments

Every value that is found was taken for an argument of the grammar that allows it. Each way to read a
word keeps this, so a whole list of arguments does, whatever its words are.
-/

namespace ModuleGraph.CommandLine

def Grammar.arguments (g : Grammar) : List Argument := g.options ++ g.positionals

/-- The grammar has an argument of this name that allows this value. -/
def Grammar.Takes (g : Grammar) (name value : String) : Prop :=
  ∃ a ∈ g.arguments, a.name = name ∧
    ∀ k repeatable, a.kind = .value k repeatable → k.Allows value

variable {g : Grammar} {a : Argument} {f found : Found} {k : ValueKind} {w : String}
  {vs ws : List String}

theorem takes_of_take (ha : a ∈ g.arguments) (hf : ∀ e ∈ f, g.Takes e.1 e.2)
    (h : a.take vs f = .ok found) : ∀ e ∈ found, g.Takes e.1 e.2 := by
  unfold Argument.take at h
  split at h
  · cases h
  · cases h
  · rename_i hkind
    split at h
    · cases h
    · cases h
      refine List.forall_mem_append.2 ⟨hf, List.forall_mem_singleton.2 ⟨a, ha, rfl, ?_⟩⟩
      intro k repeatable hvalue
      rw [hkind] at hvalue
      cases hvalue
  · rename_i k repeatable hkind
    split at h
    · cases h
    split at h
    · cases h
    split at h
    · cases h
    · rename_i hchecked
      cases h
      refine List.forall_mem_append.2 ⟨hf, List.forall_mem_map.2 fun v hv => ⟨a, ha, rfl, ?_⟩⟩
      intro k' repeatable' hvalue
      rw [hkind] at hvalue
      cases hvalue
      exact ValueKind.forM_check_eq_ok_iff.1 hchecked v hv

namespace Scan

/-- What is found and what is to be taken belongs to the grammar. -/
structure Sound (g : Grammar) (s : Scan) : Prop where
  found : ∀ e ∈ s.found, g.Takes e.1 e.2
  pending : ∀ p ∈ s.pending, p.1 ∈ g.arguments

variable {s t : Scan} {v : Option String}

theorem Sound.settle (hs : s.Sound g) (h : s.settle = .ok t) : t.Sound g := by
  unfold Scan.settle at h
  split at h
  · cases h
    exact hs
  · rename_i a vs hpending
    split at h
    · cases h
    · rename_i found htake
      cases h
      exact ⟨takes_of_take (hs.pending _ hpending) hs.found htake, by simp⟩

theorem Sound.take (hs : s.Sound g) (ha : a ∈ g.arguments) (h : s.take a vs = .ok t) :
    t.Sound g := by
  unfold Scan.take at h
  split at h
  · cases h
  · rename_i settled hsettle
    have hsettled := hs.settle hsettle
    split at h
    · cases h
    · rename_i found htake
      cases h
      exact ⟨takes_of_take ha hsettled.found htake, hsettled.pending⟩

theorem Sound.option (hs : s.Sound g) (ha : a ∈ g.arguments) (h : s.option a v = .ok t) :
    t.Sound g := by
  unfold Scan.option at h
  split at h
  · split at h
    · cases h
    · rename_i settled hsettle
      cases h
      exact ⟨(hs.settle hsettle).found, by simpa using ha⟩
  · exact hs.take ha h
  · exact hs.take ha h
  · cases h

theorem mem_arguments_of_find {p : Argument → Bool} (h : g.options.find? p = some a) :
    a ∈ g.arguments :=
  List.mem_append_left _ (List.mem_of_find?_eq_some h)

theorem Sound.cluster {cs : List Char} (hs : s.Sound g) (h : s.cluster g cs = .ok t) : t.Sound g := by
  induction cs generalizing s with
  | nil =>
    cases h
    exact hs
  | cons c cs ih =>
    unfold Scan.cluster at h
    split at h
    · cases h
    · rename_i a hfind
      have ha := mem_arguments_of_find hfind
      split at h
      · split at h
        · exact hs.option ha h
        · exact hs.option ha h
        · exact hs.option ha h
      · split at h
        · cases h
        · rename_i next hoption
          exact ih (hs.option ha hoption) h

theorem Sound.begin {n : Nat} (hs : s.Sound g) (ha : a ∈ g.arguments)
    (h : word.begin_ s w a n = .ok t) : t.Sound g := by
  unfold word.begin_ at h
  split at h
  · cases h
  · rename_i settled hsettle
    cases h
    exact ⟨(hs.settle hsettle).found, by simpa using ha⟩

theorem Sound.word (hs : s.Sound g) (h : s.word g w = .ok t) : t.Sound g := by
  unfold Scan.word at h
  split at h
  · rename_i a vs _ hpending
    cases h
    exact ⟨hs.found, by simpa using hs.pending _ hpending⟩
  · split at h
    · cases h
    · rename_i a hpositional
      have ha : a ∈ g.arguments := List.mem_append_right _ (List.mem_of_getElem? hpositional)
      split at h
      · split at h
        · cases h
          exact ⟨hs.found, by simpa using ha⟩
        · exact hs.begin ha h
      · exact hs.begin ha h
      · exact hs.begin ha h

theorem Sound.argument (hs : s.Sound g) (h : s.argument g w = .ok t) : t.Sound g := by
  unfold Scan.argument at h
  split at h
  · exact hs.word h
  split at h
  · cases h
    exact ⟨hs.found, hs.pending⟩
  · simp only at h
    split at h
    · cases h
    · exact hs.option (mem_arguments_of_find ‹_›) h
  · exact hs.cluster h
  · exact hs.word h

theorem Sound.run {rest : Option (String × List String)} (hs : s.Sound g)
    (h : Scan.run g s ws = .ok (t, rest)) : t.Sound g := by
  induction ws generalizing s with
  | nil =>
    cases h
    exact hs
  | cons w ws ih =>
    unfold Scan.run at h
    split at h
    · cases h
      exact hs
    · split at h
      · cases h
      · exact ih (hs.argument ‹_›) h

theorem sound_empty : Sound g {} := ⟨by simp, by simp⟩

end Scan

/-- What is found in a list of arguments are values that their arguments allow. -/
theorem takes_of_read {args : List String} (h : g.read args = .ok f) :
    ∀ e ∈ f, g.Takes e.1 e.2 := by
  unfold Grammar.read at h
  split at h
  · cases h
  · rename_i s _ hrun
    split at h
    · cases h
    · rename_i settled hsettle
      cases h
      exact ((Scan.sound_empty.run hrun).settle hsettle).found

end ModuleGraph.CommandLine
