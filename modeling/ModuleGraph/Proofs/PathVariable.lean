import ModuleGraph.Proofs.LevelRange

/-!
# Files named by variables

The text of a variable counts as a truth value or as a number if it reads as one, and a setting that
is a path has the text of that value. So a path is what the variable says only where the value's text
is: not where there are capitals in `true`, a zero in front of digits, or a zero behind a point.
-/

namespace ModuleGraph.Settings

open Decimal Value

variable {g x : String} {v w : Value} {e : String × Value} {F : Fields} {path : List Step}

/-! ### The last variable -/

theorem reading_update_of_ne_nil (h : path ≠ []) (w old : Value) :
    (update path (mergeInto w) old).reading = some none := by
  match path with
  | [] => exact absurd rfl h
  | .field name :: path => exact reading_of_filled (filled_alterField ..)
  | .item index :: path => cases old <;> rfl

/-- A scalar for another path leaves a setting as it is, or leaves it no scalar. -/
theorem field_layIn_of_ne {o : Option String} {s : Scalar} (hscalar : e.2 = .scalar o s)
    (hamends : amendsWith g e = true) (hpath : Key.path e.1 ≠ [.field g, .field x]) (v : Value) :
    field x (layIn g v e) = field x v ∨ (field x (layIn g v e)).reading = some none := by
  obtain ⟨name, path, hkey⟩ := Key.exists_path_eq e.1
  unfold layIn
  unfold amendsWith at hamends
  rw [hkey] at hpath hamends ⊢
  dsimp only at hamends ⊢
  by_cases hname : name = g
  · subst hname
    rw [if_pos rfl]
    rw [bne_self_eq_false, Bool.false_or, hscalar] at hamends
    match path, hamends with
    | .field y :: rest, _ =>
      rw [update]
      by_cases hy : y = x
      · subst hy
        rw [field_alterField_self]
        exact .inr (reading_update_of_ne_nil (fun hrest => hpath (by rw [hrest])) _ _)
      · exact .inl (field_alterField_of_ne (Ne.symm hy) _ _)
  · rw [if_neg hname]
    exact .inl rfl

theorem field_layEach_of_ne (hscalar : ∀ e ∈ F, ∃ o s, e.2 = .scalar o s)
    (hamends : amends g F = true) (hpath : ∀ e ∈ F, Key.path e.1 ≠ [.field g, .field x])
    (v : Value) :
    field x (layEach g F v) = field x v ∨ (field x (layEach g F v)).reading = some none := by
  induction F generalizing v with
  | nil => exact .inl rfl
  | cons e F ih =>
    obtain ⟨⟨o, s, he⟩, hscalar⟩ := List.forall_mem_cons.1 hscalar
    obtain ⟨ha, hamends⟩ := Bool.and_eq_true_iff.1 hamends
    obtain ⟨hp, hpath⟩ := List.forall_mem_cons.1 hpath
    rw [layEach_cons, Function.comp_apply]
    rcases ih hscalar hamends hpath (layIn g v e) with hF | hF
    · rw [hF]
      exact field_layIn_of_ne he ha hp v
    · exact .inr hF

/-- A setting that some scalar gives has the value of the last one, or it is no scalar. -/
theorem exists_field_layEach (hscalar : ∀ e ∈ F, ∃ o s, e.2 = .scalar o s)
    (hamends : amends g F = true) (hmem : e ∈ F) (hpath : Key.path e.1 = [.field g, .field x]) :
    ∃ e' ∈ F, Key.path e'.1 = [.field g, .field x] ∧
      ∀ v, field x (layEach g F v) = e'.2 ∨ (field x (layEach g F v)).reading = some none := by
  have hsome : (F.reverse.find? (Key.path ·.1 = [.field g, .field x])).isSome :=
    List.find?_isSome.2 ⟨e, List.mem_reverse.2 hmem, by simpa using hpath⟩
  obtain ⟨e', he'⟩ := Option.isSome_iff_exists.1 hsome
  -- The list is cut at the last entry for the setting; the entries behind it are for other paths.
  obtain ⟨hlast, as, bs, hsplit, hbehind⟩ := List.find?_eq_some_iff_append.1 he'
  rw [decide_eq_true_eq] at hlast
  obtain rfl : F = bs.reverse ++ e' :: as.reverse := by
    rw [← List.reverse_reverse F, hsplit]
    simp
  obtain ⟨-, hscalar⟩ := List.forall_mem_append.1 hscalar
  obtain ⟨⟨o, s, hvalue⟩, hscalar⟩ := List.forall_mem_cons.1 hscalar
  rw [amends, List.all_append, List.all_cons, Bool.and_eq_true, Bool.and_eq_true] at hamends
  refine ⟨e', by simp, hlast, fun v => ?_⟩
  have hplace : field x (layIn g (layEach g bs.reverse v) e') = e'.2 := by
    rw [field_layIn_of_plain ⟨⟨_, _, hlast⟩, o, s, hvalue⟩, if_pos hlast]
  rw [layEach_append, layEach_cons, Function.comp_apply]
  have hafter := field_layEach_of_ne hscalar hamends.2.2 (x := x) (fun b hb => ?_)
    (layIn g (layEach g bs.reverse v) e')
  · rwa [hplace] at hafter
  · simpa using hbehind b (List.mem_reverse.1 hb)

/-! ### Variables for a setting -/

/-- The variable is one for the setting. -/
def IsVariableOf (x : Setting) (name : String) : Prop :=
  (Environment.key? "MODGIT" name).map Key.path = some x.path

instance (x : Setting) : DecidablePred (IsVariableOf x) :=
  fun name => inferInstanceAs (Decidable ((Environment.key? "MODGIT" name).map Key.path = some x.path))

/-- The setting has no option, and it has variables, all of this text. No variable puts something in
the place of its section. -/
structure SetByVariable (o : CommandLine.Options) (environment : Environment) (x : Setting)
    (text : String) : Prop where
  no_option : o.flag? x = none
  amends : amends x.group.name (Environment.fields "MODGIT" environment) = true
  exists_variable : ∃ e ∈ environment, IsVariableOf x e.1
  text_eq : ∀ e ∈ environment, IsVariableOf x e.1 → e.2 = text

theorem scalar_of_mem_fields {program : String} {environment : Environment} :
    ∀ e ∈ Environment.fields program environment, ∃ o s, e.2 = .scalar o s := by
  intro e he
  obtain ⟨v, -, hv⟩ := List.mem_filterMap.1 he
  obtain ⟨key, -, rfl⟩ := Option.map_eq_some_iff.1 hv
  exact ⟨_, _, rfl⟩

variable {o : CommandLine.Options} {environment : Environment} {given : List Fields} {s : Settings}
  {y : Setting} {text : String}

theorem field_layEach_overrides (h : o.flag? y = none) (v : Value) :
    field y.name (layEach y.group.name o.layers.overrideFields v) = field y.name v := by
  have hgives := CommandLine.Options.gives?_overrideFields o y
  rw [gives?_of_plain o.plain_overrideFields, h, Option.map_none, Option.map_eq_none_iff] at hgives
  rw [field_layEach_of_plain o.plain_overrideFields, hgives]
  rfl

theorem field_laid_of_variable (h : SetByVariable o environment y text) (given : List Fields) :
    field y.name (field y.group.name (laid (o.layers.stack environment given))) =
        variableOf text ∨
      (field y.name (field y.group.name (laid (o.layers.stack environment given)))).reading =
        some none := by
  obtain ⟨e, he, hname⟩ := h.exists_variable
  obtain ⟨key, hkey, hpath⟩ := Option.map_eq_some_iff.1 hname
  have hmem : (key, variableOf e.2) ∈ Environment.fields "MODGIT" environment :=
    List.mem_filterMap.2 ⟨e, he, by rw [hkey]; rfl⟩
  obtain ⟨e', he', hpath', hfield⟩ :=
    exists_field_layEach scalar_of_mem_fields h.amends hmem hpath
  obtain ⟨v, hv, hv'⟩ := List.mem_filterMap.1 he'
  obtain ⟨key', hkey', rfl⟩ := Option.map_eq_some_iff.1 hv'
  have htext : v.2 = text := h.text_eq v hv (by rw [IsVariableOf, hkey']; exact congrArg some hpath')
  rw [Layers.stack, field_laid_cons, field_layEach_overrides h.no_option, field_laid_cons]
  exact htext ▸ hfield _

/-- The setting is made from the value of the variable. -/
theorem convert_of_variable (h : SetByVariable o environment y text)
    (hs : ofFields (fieldsOf (laid (o.layers.stack environment given))) = .ok s) :
    y.convert (variableOf text) = .ok (y.of s) := by
  have hread := read_of_ofFields hs y
  rcases field_laid_of_variable h given with hfield | hreading
  · exact Setting.convert_of_read hread (by rw [hfield]; rfl)
  · obtain ⟨w, hw, hscalar⟩ := Option.map_eq_some_iff.1 hreading
    rcases Setting.scalar_of_convert (Setting.convert_of_read hread hw) with ⟨_, _, rfl⟩ | ⟨rfl, -⟩
    · cases hscalar
    · rw [eq_of_given hw] at hw
      cases hw

/-! ### Texts of values -/

/-- The value that the text stands for has the same text. -/
structure Kept (text : String) : Prop where
  truth : Text.lowercase text = "true" → text = "true"
  falsehood : Text.lowercase text = "false" → text = "false"
  integer : ∀ n, integer? text = some n → text = toString n
  number : ∀ x, integer? text = none → number? text = some x → text = x.text

theorem kept_of_truth_value (h : text = "true" ∨ text = "false") : Kept text := by
  have hinteger : integer? text = none := by rcases h with rfl | rfl <;> decide +kernel
  have hnumber : number? text = none := by rcases h with rfl | rfl <;> decide +kernel
  constructor
  · rcases h with rfl | rfl
    · exact fun _ => rfl
    · exact fun h => absurd h (by decide +kernel)
  · rcases h with rfl | rfl
    · exact fun h => absurd h (by decide +kernel)
    · exact fun _ => rfl
  · rintro n hn
    rw [hinteger] at hn
    cases hn
  · rintro x - hx
    rw [hnumber] at hx
    cases hx

theorem kept_iff_of_no_word (htrue : Text.lowercase text ≠ "true")
    (hfalse : Text.lowercase text ≠ "false") :
    Kept text ↔ (∀ n, integer? text = some n → text = toString n) ∧
      ∀ x, integer? text = none → number? text = some x → text = x.text :=
  ⟨fun h => ⟨h.integer, h.number⟩, fun h => ⟨(absurd · htrue), (absurd · hfalse), h.1, h.2⟩⟩

/-- The text of the value is the variable's own exactly if that is kept. -/
theorem display_scalarOf_eq_self_iff : (Environment.scalarOf text).display = text ↔ Kept text := by
  unfold Environment.scalarOf
  dsimp only
  by_cases htrue : Text.lowercase text = "true"
  · rw [if_pos htrue]
    exact ⟨fun h => kept_of_truth_value (.inl h.symm), fun h => (h.truth htrue).symm⟩
  rw [if_neg htrue]
  by_cases hfalse : Text.lowercase text = "false"
  · rw [if_pos hfalse]
    exact ⟨fun h => kept_of_truth_value (.inr h.symm), fun h => (h.falsehood hfalse).symm⟩
  rw [if_neg hfalse, kept_iff_of_no_word htrue hfalse]
  cases hinteger : integer? text with
  | some n => simp [Scalar.display, eq_comm]
  | none =>
    cases hnumber : number? text with
    | some x => simp [Scalar.display, eq_comm]
    | none => simp [Scalar.display]

/-- A text that is no truth value is kept if one of its characters stands in no number. -/
theorem kept_of_foreign {c : Char} (hc : Foreign c) (h : c ∈ text.toList)
    (htruth : Text.lowercase text ∉ ["true", "false"]) : Kept text := by
  rw [List.mem_cons, List.mem_singleton, not_or] at htruth
  rw [kept_iff_of_no_word htruth.1 htruth.2, hc.integer?_eq_none h, hc.number?_eq_none h]
  exact ⟨nofun, nofun⟩

/-! ### Runs without files -/

theorem kind?_bareTree_ne_file (path : String) : bareTree.kind? path ≠ some .file := by
  unfold FileTree.kind? FileTree.find
  cases bareTree.locate path with
  | error e => exact nofun
  | ok at_ =>
    have hnode : bareTree.node? at_ = if at_ = [] then some .directory else none := rfl
    dsimp only
    rw [hnode]
    by_cases hroot : at_ = []
    · rw [if_pos hroot]
      exact nofun
    · rw [if_neg hroot]
      exact nofun

theorem fieldsIn_bareTree (directory path : String) :
    Source.fieldsIn bareTree directory (.file path false) = .ok [] := by
  have hfile : ∀ p : String, ((Files.isFile p : StateM FileTree Bool).run bareTree).1 = false :=
    fun p => decide_eq_false (kind?_bareTree_ne_file p)
  have hfound : ((findFile directory path : StateM FileTree _).run bareTree).1 = none := by
    rw [findFile, run_bind_of_onlyReads (onlyReads_isFile _), hfile]
    dsimp only
    rw [if_neg Bool.false_ne_true, run_bind_of_onlyReads (onlyReads_isFile _), hfile]
    rfl
  rw [fieldsIn_file, hfound]
  rfl

theorem load_bareTree (environment : Environment) (h : o.configs = []) :
    ((load "/" environment o.layers : StateM FileTree _).run bareTree).1 = (do
      o.layers.checkOverrides
      let s ← o.layers.combine environment [[]]
      ((validate s : StateM FileTree _).run bareTree).1) := by
  have hsources : o.layers.sources = [.file CommandLine.Options.settingsFile false] := by
    rw [CommandLine.Options.layers, CommandLine.Options.sources, h]
    rfl
  rw [load_eq, hsources, List.mapM_cons, List.mapM_nil, fieldsIn_bareTree]
  rfl

/-! ### Settings that are paths -/

def files (s : Settings) : List (Setting × Option String) :=
  [(.catalogFile, some s.catalogFile), (.logFile, s.logFile)]

/-- A scalar gives a path its text. -/
theorem eq_of_convert {o : Option String} {c : Scalar} {e : Setting × Option String}
    (he : e ∈ s.files) (h : e.1.convert (.scalar o c) = .ok (e.1.of s)) : e.2 = some c.display := by
  simp only [files, List.mem_cons, List.not_mem_nil, or_false] at he
  rcases he with rfl | rfl
  · exact congrArg some (Except.ok.inj h).symm
  · exact (Except.ok.inj h).symm

/-- The setting is made from the text of its option. -/
theorem convert_of_option (hgiven : ∀ F ∈ given, ∀ e ∈ F, Present e.2) (h : o.flag? y = some text)
    (hs : ofFields (fieldsOf (laid (o.layers.stack environment given))) = .ok s) :
    y.convert (.scalar none (.text text)) = .ok (y.of s) := by
  refine convert_of_decides (o.layers.present_stack environment hgiven) hs (.source ?_)
  have hoptions := amends_of_plain o.plain_overrideFields y.group.name
  rw [Layers.stack, counted, if_pos hoptions, List.findSome?_cons,
    CommandLine.Options.gives?_overrideFields, h]
  rfl

/-- A path that a variable sets is the text of the value that the variable's text stands for. That is
the variable's text exactly if it is kept, as it is where one of its characters stands in no number
and it is no truth value. A path that an option sets is what the option says. -/
theorem path_setting_is_variable_iff_kept {directory : String} {t : FileTree}
    (h : ((load directory environment o.layers : StateM FileTree _).run t).1 = .ok s) :
    ∀ e ∈ s.files, ∀ text,
      (SetByVariable o environment e.1 text →
        e.2 = some (Environment.scalarOf text).display ∧ (e.2 = some text ↔ Kept text)) ∧
      (Text.lowercase text ∉ ["true", "false"] → (∃ c ∈ text.toList, Foreign c) → Kept text) ∧
      (o.flag? e.1 = some text → e.2 = some text) := by
  obtain ⟨given, hgiven, hcombine⟩ := combine_of_load h
  rw [Layers.combine_eq] at hcombine
  intro e he text
  refine ⟨fun hset => ?_, ?_, fun hflag => ?_⟩
  · have hdisplay := eq_of_convert he (convert_of_variable hset hcombine)
    refine ⟨hdisplay, ?_⟩
    rw [hdisplay, Option.some.injEq, display_scalarOf_eq_self_iff]
  · rintro htruth ⟨c, hmem, hc⟩
    exact kept_of_foreign hc hmem htruth
  · exact eq_of_convert he (convert_of_option (present_of_given hgiven) hflag hcombine)

/-- A path with a number in it, and a variable of another setting. -/
def numberedVariables : Environment :=
  [("MODGIT_CATALOG__FILE", "conf/007"), ("MODGIT_CATALOG__DISCOVER", "0")]

/-- A number as a path. -/
def numberedOption : CommandLine.Options := { file := some "007" }

theorem numbered_paths_are_kept :
    (∃ s, ((load "/" numberedVariables (CommandLine.Options.layers {}) :
        StateM FileTree _).run bareTree).1 = .ok s ∧
      SetByVariable {} numberedVariables .catalogFile "conf/007" ∧ s.catalogFile = "conf/007") ∧
    ∃ s, ((load "/" numberedVariables numberedOption.layers : StateM FileTree _).run bareTree).1 =
        .ok s ∧
      numberedOption.flag? .catalogFile = some "007" ∧ s.catalogFile = "007" := by
  constructor
  · have hload : ((load "/" numberedVariables (CommandLine.Options.layers {}) :
        StateM FileTree _).run bareTree).1 = .ok { catalogFile := "conf/007", discover := false } := by
      rw [load_bareTree _ rfl]
      exact ok_of_toOption (by decide +kernel)
    have hset : SetByVariable {} numberedVariables .catalogFile "conf/007" := by
      constructor <;> decide +kernel
    have hforeign : ∃ c ∈ "conf/007".toList, Foreign c :=
      ⟨'/', by decide +kernel, by constructor <;> decide +kernel⟩
    obtain ⟨hvariable, hkept, -⟩ :=
      path_setting_is_variable_iff_kept hload _ List.mem_cons_self "conf/007"
    have hfile := (hvariable hset).2.2 (hkept (by decide +kernel) hforeign)
    exact ⟨_, hload, hset, Option.some.inj hfile⟩
  · have hload : ((load "/" numberedVariables numberedOption.layers :
        StateM FileTree _).run bareTree).1 = .ok { catalogFile := "007", discover := false } := by
      rw [load_bareTree _ rfl]
      exact ok_of_toOption (by decide +kernel)
    obtain ⟨-, -, hoption⟩ := path_setting_is_variable_iff_kept hload _ List.mem_cons_self "007"
    exact ⟨_, hload, rfl, Option.some.inj (hoption rfl)⟩

def zeroedVariable : Environment := [("MODGIT_CATALOG__FILE", "007")]

/-- The zeros are lost where a variable names the file, and stay where an option does. -/
theorem zeroed_path_is_changed :
    SetByVariable {} zeroedVariable .catalogFile "007" ∧
    ((load "/" zeroedVariable (CommandLine.Options.layers {}) : StateM FileTree _).run bareTree).1 =
      .ok { catalogFile := "7" } ∧
    ((load "/" [] numberedOption.layers : StateM FileTree _).run bareTree).1 =
      .ok { catalogFile := "007" } := by
  refine ⟨?_, ?_, ?_⟩
  · constructor <;> decide +kernel
  · rw [load_bareTree _ rfl]
    exact ok_of_toOption (by decide +kernel)
  · rw [load_bareTree _ rfl]
    exact ok_of_toOption (by decide +kernel)

end ModuleGraph.Settings
