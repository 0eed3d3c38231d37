/-!
# First occurrences

`firsts xs` keeps the first of equal members of `xs` and drops the later ones. It has the members of
`xs`, each once, in the order of their first occurrences.
-/

namespace ModuleGraph

variable {α : Type} [DecidableEq α]

/-- The members of the list that are new, given those seen before it. -/
def firstsAfter (seen : List α) : List α → List α
  | [] => []
  | x :: xs => if x ∈ seen then firstsAfter seen xs else x :: firstsAfter (x :: seen) xs

def firsts (xs : List α) : List α := firstsAfter [] xs

@[simp] theorem firstsAfter_nil (seen : List α) : firstsAfter seen [] = [] := rfl

@[simp] theorem firsts_nil : firsts ([] : List α) = [] := rfl

theorem mem_firstsAfter {seen xs : List α} {x : α} :
    x ∈ firstsAfter seen xs ↔ x ∈ xs ∧ x ∉ seen := by
  induction xs generalizing seen with
  | nil => simp
  | cons y ys ih =>
    by_cases h : y ∈ seen <;> by_cases hx : x = y <;> simp_all [firstsAfter]

@[simp] theorem mem_firsts {xs : List α} {x : α} : x ∈ firsts xs ↔ x ∈ xs := by
  simp [firsts, mem_firstsAfter]

theorem nodup_firstsAfter (seen xs : List α) : (firstsAfter seen xs).Nodup := by
  induction xs generalizing seen with
  | nil => simp
  | cons y ys ih =>
    by_cases h : y ∈ seen <;> simp [firstsAfter, h, ih, mem_firstsAfter]

theorem nodup_firsts (xs : List α) : (firsts xs).Nodup := nodup_firstsAfter [] xs

theorem firstsAfter_of_nodup {seen xs : List α} (h : xs.Nodup) (hs : ∀ x ∈ xs, x ∉ seen) :
    firstsAfter seen xs = xs := by
  induction xs generalizing seen with
  | nil => rfl
  | cons x xs ih =>
    obtain ⟨hx, hxs⟩ := List.nodup_cons.1 h
    obtain ⟨hxseen, hseen⟩ := List.forall_mem_cons.1 hs
    have hs' : ∀ y ∈ xs, y ∉ x :: seen := by
      intro y hy hmem
      rcases List.mem_cons.1 hmem with rfl | hmem
      · exact hx hy
      · exact hseen y hy hmem
    rw [firstsAfter, if_neg hxseen, ih hxs hs']

theorem firsts_of_nodup {xs : List α} (h : xs.Nodup) : firsts xs = xs :=
  firstsAfter_of_nodup h fun _ _ => List.not_mem_nil

/-- Members that a filter drops need not be remembered as seen. -/
theorem firstsAfter_filter {p : α → Bool} {seen seen' : List α}
    (h : ∀ x, p x → (x ∈ seen ↔ x ∈ seen')) (xs : List α) :
    firstsAfter seen (xs.filter p) = (firstsAfter seen' xs).filter p := by
  induction xs generalizing seen seen' with
  | nil => rfl
  | cons x xs ih =>
    by_cases hp : p x
    · by_cases hx : x ∈ seen
      · simp [firstsAfter, hp, hx, (h x hp).1 hx, ih h]
      · have hx' : x ∉ seen' := fun hm => hx ((h x hp).2 hm)
        have hcons : ∀ y, p y → (y ∈ x :: seen ↔ y ∈ x :: seen') := by
          intro y hy
          simp [h y hy]
        simp [firstsAfter, hp, hx, hx', ih hcons]
    · have hcons : ∀ y, p y → (y ∈ seen ↔ y ∈ x :: seen') := by
        intro y hy
        have hne : y ≠ x := fun he => hp (he ▸ hy)
        simp [h y hy, hne]
      by_cases hx' : x ∈ seen'
      · simp [firstsAfter, hp, hx', ih h]
      · simp [firstsAfter, hp, hx', ih hcons]

theorem firstsAfter_congr {seen seen' : List α} (h : ∀ x, x ∈ seen ↔ x ∈ seen') (xs : List α) :
    firstsAfter seen xs = firstsAfter seen' xs := by
  have hkeep : ∀ ys : List α, ys.filter (fun _ => true) = ys :=
    fun _ => List.filter_eq_self.2 fun _ _ => rfl
  have hall := firstsAfter_filter (p := fun _ => true) (fun x _ => h x) xs
  rwa [hkeep, hkeep] at hall

theorem firsts_filter (p : α → Bool) (xs : List α) : firsts (xs.filter p) = (firsts xs).filter p :=
  firstsAfter_filter (fun _ _ => Iff.rfl) xs

theorem firstsAfter_append (seen xs ys : List α) :
    firstsAfter seen (xs ++ ys) = firstsAfter seen xs ++ firstsAfter (xs ++ seen) ys := by
  induction xs generalizing seen with
  | nil => rfl
  | cons x xs ih =>
    by_cases hx : x ∈ seen
    · have hseen : ∀ y, y ∈ xs ++ seen ↔ y ∈ x :: xs ++ seen := by grind
      simp only [List.cons_append, firstsAfter, hx, if_true, ih]
      rw [firstsAfter_congr hseen, List.cons_append]
    · have hseen : ∀ y, y ∈ xs ++ x :: seen ↔ y ∈ x :: xs ++ seen := by grind
      simp only [List.cons_append, firstsAfter, hx, if_false, ih]
      rw [firstsAfter_congr hseen, List.cons_append]

/-- What was seen in addition is left out. -/
theorem firstsAfter_of_subset {seen seen' : List α} (h : seen ⊆ seen') (xs : List α) :
    firstsAfter seen' xs = (firstsAfter seen xs).filter (· ∉ seen') := by
  induction xs generalizing seen seen' with
  | nil => rfl
  | cons x xs ih =>
    by_cases hx : x ∈ seen
    · rw [firstsAfter, firstsAfter, if_pos hx, if_pos (h hx), ih h]
    · by_cases hx' : x ∈ seen'
      · rw [firstsAfter, firstsAfter, if_neg hx, if_pos hx', List.filter_cons_of_neg (by simpa),
          ih (List.cons_subset.2 ⟨hx', h⟩)]
      · rw [firstsAfter, firstsAfter, if_neg hx, if_neg hx', List.filter_cons_of_pos (by simpa),
          ih (List.cons_subset_cons x h)]
        refine congrArg (x :: ·) (List.filter_congr fun y hy => ?_)
        have hne : y ≠ x := fun he => (mem_firstsAfter.1 hy).2 (he ▸ List.mem_cons_self)
        simp [hne]

/-- The second list adds those of its members that the first one has not. -/
theorem firsts_append (xs ys : List α) :
    firsts (xs ++ ys) = firsts xs ++ (firsts ys).filter (· ∉ firsts xs) := by
  rw [firsts, firstsAfter_append, firstsAfter_of_subset (List.nil_subset (xs ++ []))]
  simp [firsts, mem_firstsAfter]

/-- The members stand in the order of their first occurrences. -/
theorem pairwise_idxOf_firstsAfter (seen xs : List α) :
    (firstsAfter seen xs).Pairwise fun x y => xs.idxOf x < xs.idxOf y := by
  induction xs generalizing seen with
  | nil => exact .nil
  | cons x xs ih =>
    have hskip : ∀ y, x ≠ y → (x :: xs).idxOf y = xs.idxOf y + 1 := by
      intro y h
      rw [List.idxOf_cons, beq_false_of_ne h, cond_false]
    have hlater : ∀ seen : List α, x ∈ seen →
        (firstsAfter seen xs).Pairwise fun y z => (x :: xs).idxOf y < (x :: xs).idxOf z := by
      intro seen hx
      refine (ih seen).imp_of_mem fun {y z} hy hz hlt => ?_
      have hxy : x ≠ y := fun he => (mem_firstsAfter.1 hy).2 (he ▸ hx)
      have hxz : x ≠ z := fun he => (mem_firstsAfter.1 hz).2 (he ▸ hx)
      rw [hskip y hxy, hskip z hxz]
      exact Nat.succ_lt_succ hlt
    by_cases hx : x ∈ seen
    · simpa [firstsAfter, hx] using hlater seen hx
    · simp only [firstsAfter, hx, if_false]
      refine List.pairwise_cons.2 ⟨fun y hy => ?_, hlater _ List.mem_cons_self⟩
      have hxy : x ≠ y := fun he => (mem_firstsAfter.1 hy).2 (he ▸ List.mem_cons_self)
      rw [List.idxOf_cons_self, hskip y hxy]
      exact Nat.succ_pos _

theorem pairwise_idxOf_firsts (xs : List α) :
    (firsts xs).Pairwise fun x y => xs.idxOf x < xs.idxOf y := pairwise_idxOf_firstsAfter [] xs

end ModuleGraph
