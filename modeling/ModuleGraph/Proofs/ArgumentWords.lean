import Mathlib.Data.List.TakeWhile
import ModuleGraph.CommandLine.Arguments
import ModuleGraph.Proofs.Failing

/-!
# Arguments as they are written

An option is written with its value attached to its name, and a switch by its name. Behind `--` the
words are positional arguments, whatever they look like. Here the words of one argument are read in
front of any others: they add its values to those found, and nothing else changes.
-/

namespace ModuleGraph.CommandLine

/-- A switch as it is written. -/
def alone (name : String) : String := "--" ++ name

/-- An option with its value, as it is written. -/
def attached (name value : String) : String := "--" ++ name ++ "=" ++ value

/-! ### What is found -/

namespace Found

def of (name : String) (values : List String) : Found := values.map (name, ·)

variable {f g : Found} {n m : String} {vs : List String}

@[simp] theorem has_append : Found.has (f ++ g) n = (f.has n || g.has n) := List.any_append

@[simp] theorem all_append : Found.all (f ++ g) n = f.all n ++ g.all n := by
  simp [all]

@[simp] theorem get?_append : Found.get? (f ++ g) n = (f.get? n).or (g.get? n) := by
  simp [get?, List.find?_append, Option.map_or]

@[simp] theorem has_of : (of n vs).has n = !vs.isEmpty := by
  cases vs <;> simp [of, has]

@[simp] theorem all_of : (of n vs).all n = vs := by
  simp [of, all, List.filter_map, Function.comp_def]

@[simp] theorem get?_of : (of n vs).get? n = vs.head? := by
  cases vs <;> simp [of, get?]

@[simp] theorem has_of_ne (h : n ≠ m) : (of n vs).has m = false := by
  simp [of, has, h]

@[simp] theorem all_of_ne (h : n ≠ m) : (of n vs).all m = [] := by
  simp [of, all, h]

@[simp] theorem get?_of_ne (h : n ≠ m) : (of n vs).get? m = none := by
  simp [of, get?, h]

end Found

/-! ### Taking values -/

/-- The text may stand as such a value. -/
def ValueKind.Allows (k : ValueKind) (v : String) : Prop := k.check v = .ok ()

variable {g : Grammar} {a : Argument} {f : Found} {k : ValueKind} {v w : String}
  {vs ws : List String}

theorem ValueKind.forM_check_eq_ok_iff : vs.forM k.check = .ok () ↔ ∀ v ∈ vs, k.Allows v := by
  induction vs with
  | nil => exact iff_of_true rfl fun _ hv => absurd hv List.not_mem_nil
  | cons v vs ih =>
    have hstep : (v :: vs).forM k.check = (k.check v >>= fun _ => vs.forM k.check) := rfl
    rw [hstep, List.forall_mem_cons, ← ih, Allows]
    constructor
    · intro h
      obtain ⟨_, hv, hvs⟩ := exists_of_bind_eq_ok h
      exact ⟨hv, hvs⟩
    · rintro ⟨hv, hvs⟩
      rw [hv]
      exact hvs

namespace Argument

theorem take_values {repeatable : Bool} (hkind : a.kind = .value k repeatable) (hne : vs ≠ [])
    (honce : repeatable = true ∨ f.has a.name = false) (hvs : ∀ v ∈ vs, k.Allows v) :
    a.take vs f = .ok (f ++ .of a.name vs) := by
  have hempty : vs.isEmpty = false := by simpa using hne
  have honce' : (!repeatable && f.has a.name) = false := by rcases honce with h | h <;> simp [h]
  simp only [take, hkind, hempty, honce', ValueKind.forM_check_eq_ok_iff.2 hvs]
  rfl

theorem take_switch (hkind : a.kind = .switch) (honce : f.has a.name = false) :
    a.take [] f = .ok (f ++ .of a.name [""]) := by
  simp only [take, hkind, honce]
  rfl

end Argument

/-- The grammar has this option under a name that can be written. -/
structure Grammar.Offers (g : Grammar) (name : String) (a : Argument) : Prop where
  find : g.options.find? (·.name == name) = some a
  name_ne : name ≠ ""
  notMem_name : '=' ∉ name.toList

theorem Grammar.Offers.name_eq {name : String} (h : g.Offers name a) : a.name = name := by
  simpa using List.find?_some h.find

namespace Scan

variable {s t : Scan} {name : String}

theorem splitLong_attached {name : List Char} (h : '=' ∉ name) (value : List Char) :
    splitLong (name ++ '=' :: value) = (String.ofList name, some (String.ofList value)) := by
  have hpos : ∀ c ∈ name, (c != '=') = true :=
    fun c hc => bne_iff_ne.2 (ne_of_mem_of_not_mem hc h)
  rw [splitLong, List.takeWhile_append_of_pos hpos, List.dropWhile_append_of_pos hpos]
  simp

theorem splitLong_alone {name : List Char} (h : '=' ∉ name) :
    splitLong name = (String.ofList name, none) := by
  have hpos : ∀ c ∈ name, (c != '=') = true :=
    fun c hc => bne_iff_ne.2 (ne_of_mem_of_not_mem hc h)
  rw [splitLong, List.takeWhile_eq_self_iff.2 hpos, List.dropWhile_eq_nil_iff.2 hpos]

theorem argument_attached (ha : g.Offers name a) (hs : s.trailing = false) (v : String) :
    s.argument g (attached name v) = s.option a (some v) := by
  have hchars : (attached name v).toList = '-' :: '-' :: (name.toList ++ '=' :: v.toList) := by
    simp [attached]
  simp [argument, hs, hchars, splitLong_attached ha.notMem_name, ha.find]

theorem argument_alone (ha : g.Offers name a) (hs : s.trailing = false) :
    s.argument g (alone name) = s.option a none := by
  obtain ⟨c, cs, hname⟩ : ∃ c cs, name.toList = c :: cs :=
    List.exists_cons_of_ne_nil (by simpa using ha.name_ne)
  have hchars : (alone name).toList = '-' :: '-' :: c :: cs := by
    simp [alone, hname]
  have hsplit := splitLong_alone ha.notMem_name
  rw [String.ofList_toList, hname] at hsplit
  simp [argument, hs, hchars, hsplit, ha.find]

theorem run_cons {rest : List String} (hword : w ∉ g.commands) (h : s.argument g w = .ok t) :
    run g s (w :: rest) = run g t rest := by
  simp [run, hword, h]

/-! ### Words of options -/

section Options

variable {repeatable : Bool} (ha : g.Offers name a)
  (hcommands : ∀ c ∈ g.commands, ¬['-', '-'] <+: c.toList) (rest : List String)
include ha hcommands

theorem run_attached (hkind : a.kind = .value k repeatable)
    (honce : repeatable = true ∨ f.has name = false) (hv : k.Allows v) :
    run g { found := f } (attached name v :: rest) =
      run g { found := f ++ .of name [v] } rest := by
  have hword : attached name v ∉ g.commands := by
    intro hmem
    exact hcommands _ hmem ⟨name.toList ++ '=' :: v.toList, by simp [attached]⟩
  have hname := ha.name_eq
  have htake : a.take [v] f = .ok (f ++ .of name [v]) := by
    rw [← hname] at honce ⊢
    exact Argument.take_values hkind (List.cons_ne_nil _ _) honce (by simpa using hv)
  refine run_cons hword ?_
  rw [argument_attached ha rfl]
  simp [option, hkind, take, settle, htake]

theorem run_repeated (hkind : a.kind = .value k true) (hvs : ∀ v ∈ vs, k.Allows v) :
    run g { found := f } (vs.map (attached name) ++ rest) =
      run g { found := f ++ .of name vs } rest := by
  induction vs generalizing f with
  | nil => simp [Found.of]
  | cons v vs ih =>
    obtain ⟨hv, hvs⟩ := List.forall_mem_cons.1 hvs
    rw [List.map_cons, List.cons_append, run_attached ha hcommands _ hkind (.inl rfl) hv, ih hvs]
    simp [Found.of]

theorem run_optional (o : Option String) (hkind : a.kind = .value k repeatable)
    (honce : f.has name = false) (hv : ∀ v ∈ o, k.Allows v) :
    run g { found := f } (o.toList.map (attached name) ++ rest) =
      run g { found := f ++ .of name o.toList } rest := by
  cases o with
  | none => simp [Found.of]
  | some v => exact run_attached ha hcommands rest hkind (.inr honce) (hv v rfl)

theorem run_switch (b : Bool) (hkind : a.kind = .switch) (honce : f.has name = false) :
    run g { found := f } ((if b then [alone name] else []) ++ rest) =
      run g { found := f ++ .of name (if b then [""] else []) } rest := by
  cases b with
  | false => simp [Found.of]
  | true =>
    have hword : alone name ∉ g.commands := by
      intro hmem
      exact hcommands _ hmem ⟨name.toList, by simp [alone]⟩
    have hname := ha.name_eq
    have htake : a.take [] f = .ok (f ++ .of name [""]) := by
      rw [← hname] at honce ⊢
      exact Argument.take_switch hkind honce
    refine run_cons hword ?_
    rw [argument_alone ha rfl]
    simp [option, hkind, take, settle, htake]

end Options

/-! ### Words behind the options -/

/-- What is found in the end. -/
def collect (g : Grammar) (s : Scan) (args : List String) : Except UsageError Found :=
  match run g s args with
  | .error e => .error e
  | .ok (s, _) =>
    match s.settle with
    | .error e => .error e
    | .ok s => .ok s.found

theorem collect_empty (g : Grammar) (args : List String) : g.read args = collect g {} args := rfl

theorem collect_congr {args : List String} (h : run g s ws = run g t args) :
    collect g s ws = collect g t args := by
  rw [collect, h, collect]

section Positionals

variable {n : Nat} {found : Found}

theorem collect_escape (hg : g.commands = []) :
    collect g { found := f } ("--" :: ws) = collect g { found := f, trailing := true } ws := by
  refine collect_congr (run_cons (by simp [hg]) ?_)
  simp [argument]

theorem run_trailing (hs : s.trailing = true) (h : s.word g w = .ok t) :
    run g s (w :: ws) = run g t ws := by
  simp [run, argument, hs, h]

theorem collect_congr_word (hs : s.trailing = true) (ht : t.trailing = true)
    (h : s.word g w = t.word g w) : collect g s (w :: ws) = collect g t (w :: ws) := by
  simp [collect, run, argument, hs, ht, h]

theorem settle_pending (htake : a.take vs f = .ok found) :
    settle { found := f, pending := some (a, vs), filled := n, trailing := true } =
      .ok { found, filled := n, trailing := true } := by
  rw [settle]
  simp only [htake]

/-- Values that no further word is added to may be taken before the next word. -/
theorem word_pending (hkind : a.kind = .value k false) (htake : a.take vs f = .ok found) :
    word g { found := f, pending := some (a, vs), filled := n, trailing := true } w =
      word g { found, filled := n, trailing := true } w := by
  have hbegin : ∀ b m,
      word.begin_ { found := f, pending := some (a, vs), filled := n, trailing := true } w b m =
        word.begin_ { found, filled := n, trailing := true } w b m := by
    intro b m
    simp only [word.begin_, settle_pending htake]
    rfl
  have hne : ∀ b kb, b.kind = .value kb true → b ≠ a := by
    rintro b kb hb rfl
    rw [hb] at hkind
    cases hkind
  cases hb : g.positionals[n]? with
  | none => simp [word, hb, refuse]
  | some b =>
    cases hkb : b.kind with
    | value kb repeatable =>
      cases repeatable with
      | false => simp [word, hb, hkb, hbegin]
      | true => simp [word, hb, hkb, hbegin, hne b kb hkb]
    | _ => simp [word, hb, hkb, hbegin]

theorem collect_pending (hkind : a.kind = .value k false) (htake : a.take vs f = .ok found) :
    collect g { found := f, pending := some (a, vs), filled := n, trailing := true } ws =
      collect g { found, filled := n, trailing := true } ws := by
  cases ws with
  | nil =>
    simp only [collect, run, settle_pending htake]
    rfl
  | cons w ws => exact collect_congr_word rfl rfl (word_pending hkind htake)

/-- Behind `--` a positional argument that takes one value takes the next word. -/
theorem collect_single (ha : g.positionals[n]? = some a) (hkind : a.kind = .value k false)
    (honce : f.has a.name = false) (hw : k.Allows w) :
    collect g { found := f, filled := n, trailing := true } (w :: ws) =
      collect g { found := f ++ .of a.name [w], filled := n + 1, trailing := true } ws := by
  have hword : word g { found := f, filled := n, trailing := true } w =
      .ok { found := f, pending := some (a, [w]), filled := n + 1, trailing := true } := by
    simp [word, word.begin_, settle, ha, hkind]
  rw [collect_congr (run_trailing rfl hword)]
  exact collect_pending hkind
    (Argument.take_values hkind (List.cons_ne_nil _ _) (.inr honce) (by simpa using hw))

theorem run_more (ha : g.positionals[n]? = some a) (hkind : a.kind = .value k true) :
    run g { found := f, pending := some (a, vs), filled := n, trailing := true } ws =
      .ok ({ found := f, pending := some (a, vs ++ ws), filled := n, trailing := true }, none) := by
  induction ws generalizing vs with
  | nil => simp [run]
  | cons w ws ih =>
    have hword : word g { found := f, pending := some (a, vs), filled := n, trailing := true } w =
        .ok { found := f, pending := some (a, vs ++ [w]), filled := n, trailing := true } := by
      simp [word, ha, hkind]
    rw [run_trailing rfl hword, ih]
    simp

/-- Behind `--` a positional argument that is repeatable takes all words. -/
theorem collect_rest (ha : g.positionals[n]? = some a) (hkind : a.kind = .value k true)
    (hws : ∀ w ∈ ws, k.Allows w) :
    collect g { found := f, filled := n, trailing := true } ws = .ok (f ++ .of a.name ws) := by
  cases ws with
  | nil => simp [collect, run, settle, Found.of]
  | cons w ws =>
    have hword : word g { found := f, filled := n, trailing := true } w =
        .ok { found := f, pending := some (a, [w]), filled := n, trailing := true } := by
      simp [word, word.begin_, settle, ha, hkind]
    have htake : a.take (w :: ws) f = .ok (f ++ .of a.name (w :: ws)) :=
      Argument.take_values hkind (List.cons_ne_nil _ _) (.inl rfl) hws
    rw [collect, run_trailing rfl hword, run_more ha hkind]
    simp only [List.singleton_append, settle_pending htake]

end Positionals

end Scan

end ModuleGraph.CommandLine
