import ModuleGraph.Proofs.Trail

/-!
# A chain below the last level

Modules that each depend on the next one, more of them than there are levels. Followed from any of
them, the chain is expanded down to the last level, and the module below it is too deep.
-/

namespace ModuleGraph.Resolution

/-- The modules `c 1`, `c 2` and so on, one below the last level included, each with the next one
for its only dependency. -/
structure Chain (load : String → Option Module) (c : Nat → Module) : Prop where
  loads : ∀ i, 1 ≤ i → i ≤ maxDepth → load (c i).name = some (c i)
  distinct : ∀ i, 1 ≤ i → i ≤ maxDepth + 1 → ∀ j, 1 ≤ j → j ≤ maxDepth + 1 →
    (c i).name = (c j).name → i = j
  next : ∀ i, 1 ≤ i → i ≤ maxDepth → (c i).dependsOn = [(c (i + 1)).name]

/-- What becomes of the chain from its `i`-th module on. -/
def chainVisits (c : Nat → Module) (i : Nat) : List Visit :=
  (List.range' i (maxDepth + 1 - i)).map (fun j => .expanded (c j) j) ++
    [.tooDeep (c (maxDepth + 1)).name (maxDepth + 1)]

variable {load : String → Option Module} {c : Nat → Module}

theorem expanded_mem_chainVisits {i k : Nat} {m : Module} :
    .expanded m k ∈ chainVisits c i ↔ i ≤ k ∧ k ≤ maxDepth ∧ m = c k := by
  simp only [chainVisits, List.mem_append, List.mem_map, List.mem_range'_1, Visit.expanded.injEq,
    List.mem_singleton, reduceCtorEq, or_false]
  constructor
  · rintro ⟨j, hj, rfl, rfl⟩
    exact ⟨hj.1, by omega, rfl⟩
  · rintro ⟨hi, hk, rfl⟩
    exact ⟨k, ⟨hi, by omega⟩, rfl, rfl⟩

theorem chainVisits_of_le {i : Nat} (h : i ≤ maxDepth) :
    chainVisits c i = .expanded (c i) i :: chainVisits c (i + 1) := by
  have hlength : maxDepth + 1 - i = (maxDepth + 1 - (i + 1)) + 1 := by omega
  rw [chainVisits, hlength, List.range'_succ]
  rfl

theorem Chain.run (h : Chain load c) {i : Nat} (hi : 1 ≤ i) (hi' : i ≤ maxDepth + 1)
    (referrer : String) (rest : List Entry) (seen : List String)
    (hseen : ∀ j, i ≤ j → j ≤ maxDepth + 1 → (c j).name ∉ seen) :
    ∃ seen', Run load ⟨⟨referrer, (c i).name, i⟩ :: rest, seen⟩ (chainVisits c i) ⟨rest, seen'⟩ ∧
      ∀ x, x ∈ seen' ↔ x ∈ seen ∨ ∃ j, i ≤ j ∧ j ≤ maxDepth ∧ x = (c j).name := by
  induction hk : maxDepth + 1 - i generalizing i referrer seen with
  | zero =>
    obtain rfl : i = maxDepth + 1 := by omega
    refine ⟨seen, ?_, fun x => ⟨.inl, ?_⟩⟩
    · have hstep : Step load ⟨⟨referrer, (c (maxDepth + 1)).name, maxDepth + 1⟩ :: rest, seen⟩
          (.tooDeep (c (maxDepth + 1)).name (maxDepth + 1)) ⟨rest, seen⟩ :=
        .tooDeep (hseen _ (Nat.le_refl _) (Nat.le_refl _)) (Nat.lt_succ_self _)
      simpa [chainVisits] using Run.single hstep
    · rintro (hx | ⟨j, hj, hj', -⟩)
      · exact hx
      · omega
  | succ k ih =>
    have hlevel : i ≤ maxDepth := by omega
    have hunseen : ∀ j, i + 1 ≤ j → j ≤ maxDepth + 1 → (c j).name ∉ (c i).name :: seen := by
      intro j hj hj' hmem
      rcases List.mem_cons.1 hmem with he | hmem
      · have := h.distinct j (by omega) hj' i hi hi' he
        omega
      · exact hseen j (by omega) hj' hmem
    obtain ⟨seen', hrun, hmem⟩ := ih (by omega) (by omega) (c i).name _ hunseen (by omega)
    refine ⟨seen', ?_, fun x => ?_⟩
    · rw [chainVisits_of_le hlevel]
      refine .cons (.expanded (hseen i (Nat.le_refl _) hi') hlevel (h.loads i hi hlevel)) ?_
      simpa [entries, h.next i hi hlevel] using hrun
    · rw [hmem, List.mem_cons]
      constructor
      · rintro ((rfl | hx) | ⟨j, hj, hj', rfl⟩)
        · exact .inr ⟨i, Nat.le_refl _, hlevel, rfl⟩
        · exact .inl hx
        · exact .inr ⟨j, by omega, hj', rfl⟩
      · rintro (hx | ⟨j, hj, hj', rfl⟩)
        · exact .inl (.inr hx)
        · rcases Nat.eq_or_lt_of_le hj with rfl | hj
          · exact .inl (.inl rfl)
          · exact .inr ⟨j, hj, hj', rfl⟩

/-- A module that depends on the chain and on one more name, which is then looked at with the chain
seen down to the last level. -/
theorem Chain.visits_eq (h : Chain load c) {root : Module} {y : String} {vs : List Visit}
    (hd : root.dependsOn = [(c 1).name, y])
    (hroot : ∀ j, 1 ≤ j → j ≤ maxDepth + 1 → (c j).name ≠ root.name)
    (hlast : ∀ seen : List String,
      (∀ x, x ∈ seen ↔ x = root.name ∨ ∃ j, 1 ≤ j ∧ j ≤ maxDepth ∧ x = (c j).name) →
      ∃ seen', Run load ⟨[⟨root.name, y, 1⟩], seen⟩ vs ⟨[], seen'⟩) :
    visits load root = chainVisits c 1 ++ vs := by
  have hunseen : ∀ j, 1 ≤ j → j ≤ maxDepth + 1 → (c j).name ∉ [root.name] :=
    fun j hj hj' hmem => hroot j hj hj' (List.mem_singleton.1 hmem)
  obtain ⟨seen, hchain, hmem⟩ := h.run (Nat.le_refl 1) (Nat.le_add_left 1 _) root.name
    [⟨root.name, y, 1⟩] [root.name] hunseen
  obtain ⟨seen', hrest⟩ := hlast seen (by simpa using hmem)
  obtain ⟨seen'', hrun⟩ := run_visits load root
  have hinitial : State.initial root =
      ⟨[⟨root.name, (c 1).name, 1⟩, ⟨root.name, y, 1⟩], [root.name]⟩ := by
    simp [State.initial, entries, hd]
  rw [hinitial] at hrun
  exact hrun.unique rfl (hchain.trans hrest) rfl

end ModuleGraph.Resolution
