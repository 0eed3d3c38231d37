import ModuleGraph.Proofs.NumberText

/-!
# Integers of documents

A word that spells an integer, to any base, is read as that integer or, if it does not fit 64 bits, as
nothing: it is no floating-point number and no date.
-/

namespace ModuleGraph

namespace Toml

open Decimal (readSign fitsSigned)

variable {s ds word d : List Char} {n : Int} {p : Char → Bool}

theorem of_mem_digitRun (h : digitRun? p s ≠ none) : ∀ c ∈ s, p c = true ∨ c = '_' := by
  fun_induction digitRun? p s with
  | case1 | case3 | case5 | case7 => exact absurd rfl h
  | case2 c hc => exact List.forall_mem_singleton.2 (.inl hc)
  | case4 c s hc ih =>
    rw [Ne, Option.map_eq_none_iff] at h
    exact List.forall_mem_cons.2 ⟨.inl hc, List.forall_mem_cons.2 ⟨.inr rfl, ih h⟩⟩
  | case6 c s _ _ hc ih =>
    rw [Ne, Option.map_eq_none_iff] at h
    exact List.forall_mem_cons.2 ⟨.inl hc, ih h⟩

theorem digitRun?_ne_none (h : wholeDigits? s ≠ none) : digitRun? Char.isDigit s ≠ none := by
  intro hnone
  exact h (by rw [wholeDigits?, hnone])

theorem mem_tail_of_field? {top v : Nat} {k : Nat} {x : Char} {r : List Char}
    (h : Date.field? (k + 1) top s = some (v, x :: r)) : x ∈ s.tail := by
  unfold Date.field? at h
  split at h
  · split at h
    · have hdrop : s.drop (k + 1) = x :: r := congrArg Prod.snd (Option.some.inj h)
      rw [← List.drop_tail] at hdrop
      exact List.mem_of_mem_drop (hdrop ▸ List.mem_cons_self)
    · cases h
  · cases h

theorem dash_mem_of_readDate {r : List Char × List Char} (h : Date.readDate? s = some r) :
    '-' ∈ s.tail := by
  obtain ⟨⟨year, rest⟩, hyear, h⟩ := Option.bind_eq_some_iff.1 h
  dsimp only at h
  split at h
  · exact mem_tail_of_field? hyear
  · cases h

theorem colon_mem_of_readTime {r : List Char × List Char} (h : Date.readTime? s = some r) :
    ':' ∈ s.tail := by
  obtain ⟨⟨hour, rest⟩, hhour, h⟩ := Option.bind_eq_some_iff.1 h
  dsimp only at h
  split at h
  · exact mem_tail_of_field? hhour
  · cases h

/-- A date or a time has a sign behind its first character. -/
theorem sign_mem_of_normal (h : Date.normal? s = some d) : '-' ∈ s.tail ∨ ':' ∈ s.tail := by
  unfold Date.normal? at h
  split at h
  · exact .inl (dash_mem_of_readDate ‹_›)
  · exact .inl (dash_mem_of_readDate ‹_›)
  · split at h
    · exact .inr (colon_mem_of_readTime ‹_›)
    · cases h

/-- An integer is written to another base, behind a letter for it, or with a sign and digits. -/
theorem integerOf?_cases (h : integerOf? word = some n) :
    (∃ mark base ds, word = '0' :: mark :: ds ∧ mark ∈ ['x', 'o', 'b'] ∧
      digitRun? (isDigitIn base) ds ≠ none) ∨
    digitRun? Char.isDigit (readSign word).2 ≠ none := by
  have hbased : ∀ {base : Nat} {ds : List Char}, based? base ds = some n →
      digitRun? (isDigitIn base) ds ≠ none := by
    intro base ds h hnone
    rw [based?, hnone] at h
    cases h
  unfold integerOf? at h
  split at h
  · exact .inl ⟨'x', 16, _, rfl, by simp, hbased h⟩
  · exact .inl ⟨'o', 8, _, rfl, by simp, hbased h⟩
  · exact .inl ⟨'b', 2, _, rfl, by simp, hbased h⟩
  · obtain ⟨ds, hds, -⟩ := Option.map_eq_some_iff.1 h
    exact .inr (digitRun?_ne_none (Option.ne_none_iff_exists'.2 ⟨ds, hds⟩))

theorem notMem_tail_of_integerOf (h : integerOf? word = some n) {c : Char}
    (hc : c.isAlphanum = false) (hunderscore : c ≠ '_') : c ∉ word.tail := by
  have hdigit : c.isDigit = false := by
    simp only [Char.isAlphanum, Bool.or_eq_false_iff] at hc
    exact hc.2
  rcases integerOf?_cases h with ⟨mark, base, ds, rfl, hmark, hds⟩ | hds
  · intro hmem
    rcases List.mem_cons.1 hmem with rfl | hmem
    · simp only [List.mem_cons, List.not_mem_nil, or_false] at hmark
      rcases hmark with rfl | rfl | rfl <;> cases hc
    · rcases of_mem_digitRun hds c hmem with hin | rfl
      · simp [isDigitIn, hc] at hin
      · exact hunderscore rfl
  · intro hmem
    have htail : c ∈ (readSign word).2 := by
      rcases Decimal.readSign_eq (Prod.eta (readSign word)).symm with ⟨-, hw⟩ | ⟨-, hw | hw⟩
      · rw [hw] at hmem
        exact hmem
      · rw [hw] at hmem
        exact hmem
      · rw [hw] at hmem
        exact List.mem_of_mem_tail hmem
    rcases of_mem_digitRun hds c htail with hin | rfl
    · rw [hdigit] at hin
      cases hin
    · exact hunderscore rfl

theorem decimal?_of_plain {negative : Bool}
    (h : s.any (fun c => c == '.' || isPowerMark c) = false) : decimal? negative s = none := by
  simp [decimal?, h]

theorem decimal?_of_mark {negative : Bool} {mark : Char} (h : mark ∈ ['x', 'o', 'b']) :
    decimal? negative ('0' :: mark :: s) = none := by
  simp only [List.mem_cons, List.not_mem_nil, or_false] at h
  have hfront : mark ∈ (('0' :: mark :: s).takeWhile (!isPowerMark ·)).takeWhile (· != '.') := by
    rcases h with rfl | rfl | rfl <;> simp [isPowerMark]
  have hwhole : wholeDigits? ((('0' :: mark :: s).takeWhile (!isPowerMark ·)).takeWhile (· != '.')) =
      none := by
    -- The mark stands before any point or power, where only digits may stand.
    by_contra hne
    have hmark := of_mem_digitRun (digitRun?_ne_none hne) mark hfront
    rcases h with rfl | rfl | rfl <;> revert hmark <;> decide
  unfold decimal?
  split
  · rfl
  · dsimp only
    rw [hwhole]
    cases power? (('0' :: mark :: s).dropWhile (!isPowerMark ·)) <;> rfl

theorem float?_of_integerOf (h : integerOf? word = some n) : float? word = none := by
  rcases integerOf?_cases h with ⟨mark, base, ds, rfl, hmark, -⟩ | hds
  · exact decimal?_of_mark hmark
  · have hplain : (readSign word).2.any (fun c => c == '.' || isPowerMark c) = false := by
      rw [List.any_eq_false]
      intro c hc
      rcases of_mem_digitRun hds c hc with hdigit | rfl
      · rw [Bool.not_eq_true, Bool.or_eq_false_iff, beq_eq_false_iff_ne, isPowerMark,
          Bool.or_eq_false_iff, beq_eq_false_iff_ne, beq_eq_false_iff_ne]
        refine ⟨?_, ?_, ?_⟩ <;> rintro rfl <;> cases hdigit
      · decide
    unfold float?
    split
    · rename_i heq
      rw [heq] at hds
      exact absurd rfl hds
    · rename_i heq
      rw [heq] at hds
      exact absurd rfl hds
    · rename_i heq
      rw [heq] at hplain
      exact decimal?_of_plain hplain

/-- An integer in a document is read as that integer, if it fits 64 bits, and else as nothing. -/
theorem ofWord?_of_integerOf (h : integerOf? word = some n) :
    ofWord? word = if fitsSigned n then some (.int n) else none := by
  have hdate : Date.normal? word = none := by
    by_contra hne
    obtain ⟨d, hd⟩ := Option.ne_none_iff_exists'.1 hne
    rcases sign_mem_of_normal hd with hdash | hcolon
    · exact notMem_tail_of_integerOf h (by decide) (by decide) hdash
    · exact notMem_tail_of_integerOf h (by decide) (by decide) hcolon
  have htrue : word ≠ "true".toList := by
    rintro rfl
    cases h
  have hfalse : word ≠ "false".toList := by
    rintro rfl
    cases h
  rw [ofWord?, if_neg htrue, if_neg hfalse, integer?, h, float?_of_integerOf h, hdate]
  cases hfits : fitsSigned n <;> simp [Option.filter, hfits]

end Toml

end ModuleGraph
