import ModuleGraph.Proofs.Listing

/-!
# What patterns select

A list of patterns selects, for each pattern in turn, the listed name that it equals or else the
listed names that it matches, every name once. The first pattern that is neither a listed name nor a
glob makes the selection fail. Which patterns are globs, and what they match, is left to a matcher.
-/

namespace ModuleGraph.Selection

variable {matcher : Matcher} {names patterns ps qs selected : List String} {p n x y : String}

/-- The matcher takes the pattern for a glob. -/
def IsGlob (matcher : Matcher) (p : String) : Prop := (matcher p).isOk = true

instance (matcher : Matcher) (p : String) : Decidable (IsGlob matcher p) :=
  inferInstanceAs (Decidable (_ = true))

/-- The pattern is a glob that matches the name. -/
def matchesName (matcher : Matcher) (p n : String) : Bool :=
  match matcher p with
  | .ok isMatch => isMatch n
  | .error _ => false

/-- A pattern selects the name it equals, and if it is not listed the names that it matches. -/
def selects (matcher : Matcher) (names : List String) (p n : String) : Bool :=
  p = n || p ∉ names && matchesName matcher p n

def refusal? (matcher : Matcher) (names : List String) (p : String) : Option CatalogError :=
  if p ∈ names then none
  else
    match matcher p with
    | .ok _ => none
    | .error reason => some (.invalidPattern p reason)

/-- The place of the first pattern that selects a name. -/
def firstSelecting (matcher : Matcher) (names patterns : List String) (n : String) : Nat :=
  patterns.findIdx (selects matcher names · n)

theorem selects_iff :
    selects matcher names p n = true ↔ p = n ∨ p ∉ names ∧ matchesName matcher p n = true := by
  simp [selects]

theorem refusal?_eq_none_iff : refusal? matcher names p = none ↔ p ∈ names ∨ IsGlob matcher p := by
  unfold refusal? IsGlob
  by_cases hp : p ∈ names
  · simp [hp]
  · cases hm : matcher p <;> simp [hp, Except.isOk, Except.toBool]

theorem refusal?_eq_some_iff {e : CatalogError} :
    refusal? matcher names p = some e ↔
      p ∉ names ∧ ∃ reason, matcher p = .error reason ∧ e = .invalidPattern p reason := by
  unfold refusal?
  by_cases hp : p ∈ names
  · simp [hp]
  · cases hm : matcher p <;> simp [hp, eq_comm]

theorem ofPattern_eq (matcher : Matcher) (names : List String) (p : String) :
    ofPattern matcher names p =
      match refusal? matcher names p with
      | some e => .error e
      | none => .ok (names.filter (selects matcher names p)) := by
  unfold ofPattern refusal?
  by_cases hp : p ∈ names
  · have hself : names.filter (· = p) = names.filter (selects matcher names p) := by
      refine List.filter_congr fun n _ => ?_
      simp [selects, hp, eq_comm]
    simp [hp, hself]
  · cases hm : matcher p with
    | error reason => simp [hp]
    | ok isMatch =>
      have hglob : names.filter isMatch = names.filter (selects matcher names p) := by
        refine List.filter_congr fun n hn => ?_
        have hne : p ≠ n := fun he => hp (he ▸ hn)
        simp [selects, matchesName, hp, hm, hne]
      simp [hp, hglob]

theorem ofEach_eq (matcher : Matcher) (names patterns : List String) :
    ofEach matcher names patterns =
      match patterns.findSome? (refusal? matcher names) with
      | some e => .error e
      | none => .ok (patterns.map fun p => names.filter (selects matcher names p)) := by
  induction patterns with
  | nil => rfl
  | cons p ps ih =>
    rw [ofEach, ofPattern_eq, List.findSome?_cons]
    cases hp : refusal? matcher names p with
    | some e => rfl
    | none =>
      simp only [ih]
      cases ps.findSome? (refusal? matcher names) with
      | some e => rfl
      | none => rfl

/-- The names that patterns select if none is refused. -/
def union (matcher : Matcher) (names patterns : List String) : List String :=
  firsts (patterns.flatMap fun p => names.filter (selects matcher names p))

theorem select_eq (matcher : Matcher) (names patterns : List String) :
    select matcher names patterns =
      match patterns.findSome? (refusal? matcher names) with
      | some e => .error e
      | none => .ok (union matcher names patterns) := by
  rw [select, ofEach_eq, union, List.flatMap_def]
  cases patterns.findSome? (refusal? matcher names) with
  | some e => rfl
  | none => rfl

/-! ### Refused patterns -/

theorem select_eq_error_iff {e : CatalogError} :
    select matcher names patterns = .error e ↔
      ∃ before p after reason, patterns = before ++ p :: after ∧
        (∀ q ∈ before, q ∈ names ∨ IsGlob matcher q) ∧ p ∉ names ∧ matcher p = .error reason ∧
        e = .invalidPattern p reason := by
  have hfirst : select matcher names patterns = .error e ↔
      patterns.findSome? (refusal? matcher names) = some e := by
    rw [select_eq]
    cases patterns.findSome? (refusal? matcher names) with
    | some e' => simp
    | none => simp
  rw [hfirst, List.findSome?_eq_some_iff]
  constructor
  · rintro ⟨before, p, after, rfl, hp, hbefore⟩
    obtain ⟨hlisted, reason, hreason, he⟩ := refusal?_eq_some_iff.1 hp
    refine ⟨before, p, after, reason, rfl, fun q hq => ?_, hlisted, hreason, he⟩
    exact refusal?_eq_none_iff.1 (hbefore q hq)
  · rintro ⟨before, p, after, reason, rfl, hbefore, hlisted, hreason, he⟩
    refine ⟨before, p, after, rfl, refusal?_eq_some_iff.2 ⟨hlisted, reason, hreason, he⟩, ?_⟩
    intro q hq
    exact refusal?_eq_none_iff.2 (hbefore q hq)

theorem exists_select_error_iff :
    (∃ e, select matcher names patterns = .error e) ↔
      ∃ p ∈ patterns, p ∉ names ∧ ¬ IsGlob matcher p := by
  have hfails : (∃ e, select matcher names patterns = .error e) ↔
      ¬ ∀ p ∈ patterns, refusal? matcher names p = none := by
    rw [← List.findSome?_eq_none_iff, select_eq]
    cases patterns.findSome? (refusal? matcher names) with
    | some e => simp
    | none => simp
  rw [hfails]
  simp only [refusal?_eq_none_iff, not_forall, not_or, exists_prop]

theorem eq_union_of_select (h : select matcher names patterns = .ok selected) :
    selected = union matcher names patterns := by
  rw [select_eq] at h
  split at h
  · cases h
  · cases h
    rfl

/-! ### Selected names -/

theorem mem_union_iff :
    n ∈ union matcher names patterns ↔
      n ∈ names ∧ ∃ p ∈ patterns, selects matcher names p n = true := by
  simp only [union, mem_firsts, List.mem_flatMap, List.mem_filter]
  constructor
  · rintro ⟨p, hp, hn, hs⟩
    exact ⟨hn, p, hp, hs⟩
  · rintro ⟨hn, p, hp, hs⟩
    exact ⟨p, hp, hn, hs⟩

theorem union_append (matcher : Matcher) (names ps qs : List String) :
    union matcher names (ps ++ qs) =
      union matcher names ps ++
        (union matcher names qs).filter (· ∉ union matcher names ps) := by
  rw [union, List.flatMap_append, firsts_append]
  rfl

theorem union_cons (h : names.Nodup) (p : String) (ps : List String) :
    union matcher names (p :: ps) =
      names.filter (selects matcher names p) ++
        (union matcher names ps).filter (· ∉ names.filter (selects matcher names p)) := by
  have hsingle : union matcher names [p] = names.filter (selects matcher names p) := by
    rw [union, List.flatMap_singleton]
    exact firsts_of_nodup (h.filter _)
  rw [← List.singleton_append, union_append, hsingle]

theorem firstSelecting_cons (p : String) (ps : List String) (n : String) :
    firstSelecting matcher names (p :: ps) n =
      if selects matcher names p n = true then 0 else firstSelecting matcher names ps n + 1 := by
  rw [firstSelecting, List.findIdx_cons]
  cases selects matcher names p n <;> rfl

theorem not_selects_of_mem_rest
    (h : n ∈ (union matcher names ps).filter (· ∉ names.filter (selects matcher names p))) :
    ¬ selects matcher names p n = true := by
  obtain ⟨hunion, hnew⟩ := List.mem_filter.1 h
  intro hs
  exact of_decide_eq_true hnew (List.mem_filter.2 ⟨(mem_union_iff.1 hunion).1, hs⟩)

/-- A pattern before the first one that selects `y` selects `x`, or that one selects both and `x` is
listed before `y`. -/
def ComesBefore (matcher : Matcher) (names patterns : List String) (x y : String) : Prop :=
  firstSelecting matcher names patterns x < firstSelecting matcher names patterns y ∨
    firstSelecting matcher names patterns x = firstSelecting matcher names patterns y ∧
      names.idxOf x < names.idxOf y

theorem pairwise_union (h : names.Nodup) (patterns : List String) :
    (union matcher names patterns).Pairwise (ComesBefore matcher names patterns) := by
  induction patterns with
  | nil => exact .nil
  | cons p ps ih =>
    have hlisted := pairwise_idxOf_firsts names
    rw [firsts_of_nodup h] at hlisted
    rw [union_cons h, List.pairwise_append]
    refine ⟨?_, ?_, ?_⟩
    · refine (hlisted.filter _).imp_of_mem fun {x y} hx hy hlt => .inr ⟨?_, hlt⟩
      rw [firstSelecting_cons, firstSelecting_cons, if_pos (List.mem_filter.1 hx).2,
        if_pos (List.mem_filter.1 hy).2]
    · refine (ih.filter _).imp_of_mem fun {x y} hx hy hlt => ?_
      unfold ComesBefore
      rw [firstSelecting_cons, firstSelecting_cons, if_neg (not_selects_of_mem_rest hx),
        if_neg (not_selects_of_mem_rest hy)]
      simpa [ComesBefore] using hlt
    · intro x hx y hy
      left
      rw [firstSelecting_cons, firstSelecting_cons, if_pos (List.mem_filter.1 hx).2,
        if_neg (not_selects_of_mem_rest hy)]
      exact Nat.succ_pos _

/-! ### Lists of patterns -/

theorem select_append (matcher : Matcher) (names ps qs : List String) :
    select matcher names (ps ++ qs) = (select matcher names ps).bind fun selected =>
      (select matcher names qs).map fun more => selected ++ more.filter (· ∉ selected) := by
  rw [select_eq, select_eq, select_eq, List.findSome?_append]
  cases ps.findSome? (refusal? matcher names) with
  | some e => rfl
  | none =>
    cases qs.findSome? (refusal? matcher names) with
    | some e => rfl
    | none => exact congrArg _ (union_append matcher names ps qs)

theorem select_singleton (h : names.Nodup) (hn : n ∈ names) :
    select matcher names [n] = .ok [n] := by
  have hnone : [n].findSome? (refusal? matcher names) = none := by
    rw [List.findSome?_singleton]
    exact refusal?_eq_none_iff.2 (.inl hn)
  have hself : names.filter (selects matcher names n) = [n] := by
    have hequal : names.filter (selects matcher names n) = names.filter (· = n) := by
      refine List.filter_congr fun x _ => ?_
      simp [selects, hn, eq_comm]
    rw [hequal, List.filter_eq, List.count_eq_one_of_mem h hn, List.replicate_one]
  rw [select_eq, hnone, union_cons h, hself]
  rfl

/-- A selection fails if some pattern is neither a listed name nor a glob, with the first such
pattern. Otherwise it has each listed name once that equals a pattern or that a pattern matches which
is not listed, in the order of the patterns that select them first and then of the listing. Further
patterns add the names that they select and the others do not, and a listed name selects itself,
whether or not it is a glob. -/
theorem patterns_select (matcher : Matcher) (d : Definitions) (patterns : List String) :
    d.matching patterns = select globMatcher d.names patterns ∧
    ((∃ e, select matcher d.names patterns = .error e) ↔
      ∃ p ∈ patterns, p ∉ d.names ∧ ¬ IsGlob matcher p) ∧
    (∀ e, select matcher d.names patterns = .error e ↔
      ∃ before p after reason, patterns = before ++ p :: after ∧
        (∀ q ∈ before, q ∈ d.names ∨ IsGlob matcher q) ∧ p ∉ d.names ∧
        matcher p = .error reason ∧ e = .invalidPattern p reason) ∧
    (∀ selected, select matcher d.names patterns = .ok selected →
      selected.Nodup ∧
      (∀ n, n ∈ selected ↔ n ∈ d.names ∧
        ∃ p ∈ patterns, p = n ∨ p ∉ d.names ∧ matchesName matcher p n = true) ∧
      selected.Pairwise (ComesBefore matcher d.names patterns)) ∧
    (∀ more, select matcher d.names (patterns ++ more) =
      (select matcher d.names patterns).bind fun selected =>
        (select matcher d.names more).map fun added => selected ++ added.filter (· ∉ selected)) ∧
    ∀ n ∈ d.names, select matcher d.names [n] = .ok [n] := by
  have hnodup : d.names.Nodup := nodup_firsts _
  refine ⟨rfl, exists_select_error_iff, fun e => select_eq_error_iff, fun selected h => ?_,
    select_append matcher d.names patterns, fun n hn => select_singleton hnodup hn⟩
  rw [eq_union_of_select h]
  refine ⟨nodup_firsts _, fun n => ?_, pairwise_union hnodup patterns⟩
  simp only [mem_union_iff, selects_iff]

/-- Two of the names look like globs, and the last one is none. -/
def lookalikes : Definitions := .ofModules
  [{ name := "core", paths := ["lib"] }, { name := "*/*", paths := ["ui"] },
    { name := "ui/a", paths := ["ui/a"] }, { name := "?/[", paths := ["ui/b"] }]

theorem lookalikes_select_themselves :
    ¬ IsGlob globMatcher "?/[" ∧ "?/[" ∈ lookalikes.names ∧
      lookalikes.matching ["?/["] = .ok ["?/["] ∧
      ∃ selected, lookalikes.matching ["?/[", "*/*", "??/?", "*"] = .ok selected ∧
        selected = ["?/[", "*/*", "ui/a", "core"] ∧ selected.Nodup ∧
        ComesBefore globMatcher lookalikes.names ["?/[", "*/*", "??/?", "*"] "ui/a" "core" ∧
        lookalikes.matching (["?/[", "*/*", "??/?", "*"] ++ ["**"]) = .ok selected := by
  have hglob : ¬ IsGlob globMatcher "?/[" := by decide +kernel
  have hlisted : "?/[" ∈ lookalikes.names := by decide +kernel
  have hresult : lookalikes.matching ["?/[", "*/*", "??/?", "*"] =
      .ok ["?/[", "*/*", "ui/a", "core"] := by
    decide +kernel
  have hmore : lookalikes.matching ["**"] = .ok ["core", "*/*", "ui/a", "?/["] := by decide +kernel
  obtain ⟨hmatching, -, -, hselected, happend, hself⟩ :=
    patterns_select globMatcher lookalikes ["?/[", "*/*", "??/?", "*"]
  obtain ⟨hnodup, -, hordered⟩ := hselected _ (hmatching ▸ hresult)
  refine ⟨hglob, hlisted, hself _ hlisted, _, hresult, rfl, hnodup, ?_, ?_⟩
  · exact List.pairwise_iff_getElem.1 hordered 2 3 (by decide) (by decide) (by decide)
  · refine (happend ["**"]).trans ?_
    rw [← hmatching, hresult, show select globMatcher lookalikes.names ["**"] = _ from hmore]
    decide +kernel

end ModuleGraph.Selection
