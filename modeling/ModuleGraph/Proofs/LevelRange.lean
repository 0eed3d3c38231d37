import ModuleGraph.Proofs.DocumentInteger
import ModuleGraph.Proofs.Precedence

/-!
# The range of log levels

A level is the integer that its source gives, and that integer is a level. Only a variable that spells
an integer below those of 64 bits is an exception: its text is read as a binary number, and that is
rounded to 0.
-/

namespace ModuleGraph.Settings

open Decimal Value

/-! ### Levels of values -/

def variableOf (text : String) : Value :=
  .scalar (some "the environment") (Environment.scalarOf text)

/-- The value says this integer: as a number, as a text, or as a variable's text. -/
inductive Says : Value → Int → Prop
  | number (o : Option String) (n : Int) : Says (.scalar o (.int n)) n
  | text (o : Option String) {w : String} {n : Int} (h : spelled? w = some n) :
    Says (.scalar o (.text w)) n
  | environment {w : String} {n : Int} (h : spelled? w = some n) : Says (variableOf w) n

/-- The value is that of a variable which spells an integer below those of 64 bits. -/
structure Sinks (v : Value) (n : Int) : Prop where
  below : n < -0x8000000000000000
  spelled : ∃ w, spelled? w = some n ∧ v = variableOf w

variable {v : Value} {n : Int} {k : Nat} {l : Log.Level} {w : String}

theorem natural_of_level (h : v.level = .ok l) : v.natural = .ok l.toNat := by
  unfold level at h
  cases hk : v.natural with
  | error e =>
    rw [hk] at h
    cases h
  | ok k =>
    rw [hk] at h
    dsimp only at h
    split at h
    · rw [Log.Level.ofNat_eq_ok_iff.1 (eq_ok_of_mapError h)]
    · cases h

theorem eq_of_natural_int {o : Option String} (h : (Value.scalar o (.int n)).natural = .ok k) :
    n = k := by
  rw [natural] at h
  split at h
  · rw [← Except.ok.inj h]
    omega
  · cases h

theorem eq_of_natural_text {o : Option String} (hw : spelled? w = some n)
    (h : (Value.scalar o (.text w)).natural = .ok k) : n = k := by
  rw [natural, truth?_of_spelled hw] at h
  dsimp only at h
  cases hk : natural? w with
  | none =>
    rw [hk] at h
    cases h
  | some j =>
    rw [hk] at h
    obtain rfl := Except.ok.inj h
    exact natural?_of_spelled hw hk

/-- Of the integers that do not fit, the small ones are rounded to 0 and the large ones to no level. -/
theorem eq_or_sinks_of_natural (hw : spelled? w = some n) (h : (variableOf w).natural = .ok k)
    (hk : k ≤ 6) : n = k ∨ n < -0x8000000000000000 ∧ k = 0 := by
  rw [variableOf, scalarOf_of_spelled hw] at h
  cases hfits : fitsSigned n with
  | true =>
    rw [hfits, if_pos rfl] at h
    exact .inl (eq_of_natural_int h)
  | false =>
    rw [hfits, if_neg Bool.false_ne_true, natural] at h
    have hclamp := Except.ok.inj h
    have hrange : n < -0x8000000000000000 ∨ 0x8000000000000000 ≤ n := by
      simp only [fitsSigned, Bool.and_eq_false_iff, decide_eq_false_iff_not] at hfits
      omega
    obtain ⟨negative, ds, j, hsign, -, hn⟩ := exists_of_spelled hw
    rw [hsign] at hclamp
    dsimp only at hclamp
    -- The sign in front tells apart the integers below the range and those above it.
    cases negative with
    | true =>
      rw [Binary64.clampToNat_ofDecimal_negative] at hclamp
      simp only [if_true] at hn
      exact .inr ⟨by omega, hclamp.symm⟩
    | false =>
      simp only [Bool.false_eq_true, if_false] at hn
      have hlarge := Binary64.le_clampToNat_ofDecimal (by omega : 0x8000000000000000 ≤ n.natAbs)
      omega

/-- The level made from a value that says an integer is that integer, or the value sinks to 0. -/
theorem eq_or_sinks_of_level (hn : Says v n) (h : v.level = .ok l) :
    (l.toNat : Int) = n ∨ Sinks v n ∧ l.toNat = 0 := by
  have hnatural := natural_of_level h
  cases hn with
  | number o => exact .inl (eq_of_natural_int hnatural).symm
  | text o hw => exact .inl (eq_of_natural_text hw hnatural).symm
  | environment hw =>
    rcases eq_or_sinks_of_natural hw hnatural l.le_six with heq | ⟨hbelow, hzero⟩
    · exact .inl heq.symm
    · exact .inr ⟨⟨hbelow, _, hw, rfl⟩, hzero⟩

/-! ### Levels of settings -/

/-- The value is what the highest source that gives the setting gives for it, or what is found in its
place in the section that all sources make. -/
inductive Decides (stack : List Fields) (x : Setting) (v : Value) : Prop
  | source (h : (counted x.group.name stack).findSome? (gives? x.group.name x.name) = some v)
  | place (key : String)
    (h : x.group.find? x.index (field x.group.name (laid stack)).orEmpty = some (key, v))

/-- The scalar found in the place of a setting, given the sources' fields. -/
def placed? (layers : Layers) (environment : Environment) (x : Setting) (given : List Fields) :
    Option (Option String × Scalar) :=
  (x.group.find? x.index (field x.group.name (laid (layers.stack environment given))).orEmpty).bind
    fun e => e.2.scalar?

theorem decides_of_placed {layers : Layers} {environment : Environment} {x : Setting}
    {given : List Fields} {o : Option String} {c : Scalar}
    (h : placed? layers environment x given = some (o, c)) :
    Decides (layers.stack environment given) x (.scalar o c) := by
  obtain ⟨⟨key, v⟩, hfind, hv⟩ := Option.bind_eq_some_iff.1 h
  obtain rfl := eq_of_scalar hv
  exact .place key hfind

theorem convert_of_decides {stack : List Fields} {x : Setting} {s : Settings}
    (hstack : ∀ F ∈ stack, ∀ e ∈ F, Present e.2) (h : ofFields (fieldsOf (laid stack)) = .ok s)
    (hv : Decides stack x v) : x.convert v = .ok (x.of s) := by
  cases hv with
  | source hgives => exact (of_laid hstack h x).1 v hgives
  | place key hfind => exact Setting.convert_of_find? (read_of_ofFields h x) hfind

theorem present_fields (program : String) (environment : Environment) :
    ∀ e ∈ Environment.fields program environment, Present e.2 := by
  intro e he
  obtain ⟨v, -, hv⟩ := List.mem_filterMap.1 he
  obtain ⟨key, -, rfl⟩ := Option.map_eq_some_iff.1 hv
  trivial

theorem Layers.present_stack (l : Layers) (environment : Environment) {given : List Fields}
    (hgiven : ∀ F ∈ given, ∀ e ∈ F, Present e.2) :
    ∀ F ∈ l.stack environment given, ∀ e ∈ F, Present e.2 := by
  intro F hF
  rcases List.mem_cons.1 hF with rfl | hF
  · intro e he
    obtain ⟨o, -, rfl⟩ := List.mem_map.1 he
    trivial
  · rcases List.mem_cons.1 hF with rfl | hF
    · cases l.program with
      | none => exact fun e he => absurd he List.not_mem_nil
      | some program => exact present_fields program environment
    · exact hgiven F (List.mem_reverse.1 hF)

def levels (s : Settings) : List (Setting × Log.Level) :=
  [(.consoleLevel, s.consoleLevel), (.fileLevel, s.fileLevel)]

/-- Where an integer decides a level, settings load only if it is one of 0 to 6, and the level is that
integer; or else a variable spells it, it is below the integers of 64 bits, and the level is 0. In a
document an integer is itself, or no value if it does not fit 64 bits. -/
theorem level_is_given_integer {layers : Layers} {directory : String} {environment : Environment}
    {t : FileTree} {s : Settings}
    (h : ((load directory environment layers : StateM FileTree _).run t).1 = .ok s) :
    (∃ given, layers.sources.mapM (Source.fieldsIn t directory) = .ok given ∧
      ∀ e ∈ s.levels, ∀ v n, Decides (layers.stack environment given) e.1 v → Says v n →
        (0 ≤ n ∧ n ≤ 6 ∧ (e.2.toNat : Int) = n) ∨ (Sinks v n ∧ e.2.toNat = 0)) ∧
    ∀ word n, Toml.integerOf? word = some n →
      Toml.ofWord? word = if fitsSigned n then some (.int n) else none := by
  refine ⟨?_, fun word n => Toml.ofWord?_of_integerOf⟩
  obtain ⟨given, hgiven, hcombine⟩ := combine_of_load h
  rw [Layers.combine_eq] at hcombine
  refine ⟨given, hgiven, ?_⟩
  have hpresent := layers.present_stack environment (present_of_given hgiven)
  intro e he v n hv hn
  have hlevel : v.level = .ok e.2 := by
    have hconvert := convert_of_decides hpresent hcombine hv
    simp only [levels, List.mem_cons, List.not_mem_nil, or_false] at he
    rcases he with rfl | rfl <;> exact hconvert
  have hsix := e.2.le_six
  rcases eq_or_sinks_of_level hn hlevel with heq | hsinks
  · exact .inl ⟨by omega, by omega, heq⟩
  · exact .inr hsinks

/-- The level of the console as a variable with a sign and zeros in front. -/
def signedVariable : Environment := [("MODGIT_GLOBAL__OUTPUT_LOG_LEVEL", "+006")]

/-- The level of the log file to the base 16. -/
def hexadecimalLevel : Layers where
  sources := [.document "global.file_log_level = 0x3"]
  program := some "MODGIT"

def bareTree : FileTree where
  nodes := []

theorem spelled_levels_load :
    ∃ s, ((load "/" signedVariable hexadecimalLevel : StateM FileTree _).run bareTree).1 = .ok s ∧
      (s.consoleLevel.toNat : Int) = 6 ∧ (s.fileLevel.toNat : Int) = 3 ∧
      ∃ given, hexadecimalLevel.sources.mapM (Source.fieldsIn bareTree "/") = .ok given ∧
        Decides (hexadecimalLevel.stack signedVariable given) .consoleLevel (variableOf "+006") ∧
        Says (variableOf "+006") 6 ∧
        Decides (hexadecimalLevel.stack signedVariable given) .fileLevel (.scalar none (.int 3)) ∧
        Says (.scalar none (.int 3)) 3 := by
  have hload : ((load "/" signedVariable hexadecimalLevel : StateM FileTree _).run bareTree).1 =
      .ok { consoleLevel := ⟨6, Nat.le_refl 6⟩, fileLevel := ⟨3, by decide⟩ } := by
    rw [load_eq]
    exact ok_of_toOption (by decide +kernel)
  obtain ⟨⟨given, hgiven, hlevels⟩, -⟩ := level_is_given_integer hload
  have hplaced : (hexadecimalLevel.sources.mapM (Source.fieldsIn bareTree "/")).toOption.map
      (fun given => (placed? hexadecimalLevel signedVariable .consoleLevel given,
        placed? hexadecimalLevel signedVariable .fileLevel given)) =
      some (some (some "the environment", Environment.scalarOf "+006"), some (none, .int 3)) := by
    decide +kernel
  rw [hgiven] at hplaced
  obtain ⟨hconsole, hfile⟩ := Prod.mk.inj (Option.some.inj hplaced)
  have hsigned : Says (variableOf "+006") 6 := .environment (by decide +kernel)
  have hsix := hlevels _ List.mem_cons_self _ _ (decides_of_placed hconsole) hsigned
  have hthree := hlevels _ (List.mem_cons_of_mem _ List.mem_cons_self) _ _ (decides_of_placed hfile)
    (.number none 3)
  refine ⟨_, hload, ?_, ?_, given, hgiven, decides_of_placed hconsole, hsigned,
    decides_of_placed hfile, .number none 3⟩
  · exact hsix.elim (fun h => h.2.2) fun h => absurd h.1.below (by decide)
  · exact hthree.elim (fun h => h.2.2) fun h => absurd h.1.below (by decide)

/-- The first integer below those of 64 bits. -/
def sunkVariable : Environment := [("MODGIT_GLOBAL__OUTPUT_LOG_LEVEL", "-9223372036854775809")]

/-- It is accepted as level 0. -/
theorem sunk_variable_loads :
    ((load "/" sunkVariable { program := some "MODGIT" } : StateM FileTree _).run bareTree).1 =
      .ok { consoleLevel := ⟨0, by decide⟩ } ∧
    Decides (Layers.stack { program := some "MODGIT" } sunkVariable []) .consoleLevel
      (variableOf "-9223372036854775809") ∧
    Says (variableOf "-9223372036854775809") (-9223372036854775809) := by
  have hplaced : placed? { program := some "MODGIT" } sunkVariable .consoleLevel [] =
      some (some "the environment", Environment.scalarOf "-9223372036854775809") := by
    decide +kernel
  refine ⟨?_, decides_of_placed hplaced, .environment (by decide +kernel)⟩
  rw [load_eq]
  exact ok_of_toOption (by decide +kernel)

end ModuleGraph.Settings
