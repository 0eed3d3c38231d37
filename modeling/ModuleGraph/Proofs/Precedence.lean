import ModuleGraph.CommandLine.Settings
import ModuleGraph.Proofs.Setting

/-!
# Precedence of settings

Each setting is decided on its own: by an option of the command line, else by a variable of the
environment, else by the highest file that gives it, else by its default. A file that gives a group
of settings as anything but a table takes the place of what the files below it give of the group.
-/

namespace ModuleGraph

open Settings Settings.Value

variable {environment : Environment} {given : List Fields}

/-! ### Options -/

namespace CommandLine.Options

/-- The text that the options give for a setting. The level of the log file is that of the console
where it has no option of its own. -/
def flag? (o : Options) : Setting → Option String
  | .consoleLevel => o.logLevel.map toString
  | .fileLevel => (o.fileLogLevel <|> o.logLevel).map toString
  | .logFile => o.logFile
  | .catalogFile => o.file
  | .discover => if o.noDiscover then some "false" else none

theorem overrideFields_layers (o : Options) :
    o.layers.overrideFields = Setting.all.filterMap fun x =>
      (o.flag? x).map fun text => (x.key, .scalar none (.text text)) := by
  obtain ⟨configs, file, noDiscover, logLevel, fileLogLevel, logFile⟩ := o
  cases file <;> cases noDiscover <;> cases logLevel <;> cases fileLogLevel <;> cases logFile <;>
    rfl

theorem plain_overrideFields (o : Options) : ∀ e ∈ o.layers.overrideFields, Plain e := by
  intro e he
  rw [overrideFields_layers] at he
  obtain ⟨x, -, hx⟩ := List.mem_filterMap.1 he
  obtain ⟨text, -, rfl⟩ := Option.map_eq_some_iff.1 hx
  exact ⟨⟨_, _, x.path_key⟩, _, _, rfl⟩

theorem gives?_overrideFields (o : Options) (x : Setting) :
    gives? x.group.name x.name o.layers.overrideFields =
      (o.flag? x).map fun text => .scalar none (.text text) := by
  have hentry : ∀ y : Setting,
      ((o.flag? y).map fun text => (y.key, Value.scalar none (.text text))).any
          (fun e => Key.path e.1 = [.field x.group.name, .field x.name]) =
        decide (y = x ∧ (o.flag? x).isSome) := by
    intro y
    have hpath : Key.path y.key = [.field x.group.name, .field x.name] ↔ y = x := by
      rw [y.path_key, ← Setting.path_inj]
      rfl
    by_cases hy : y = x
    · subst hy
      cases o.flag? y <;> simp [hpath]
    · cases o.flag? y <;> simp [hpath, hy]
  rw [gives?_of_plain o.plain_overrideFields, overrideFields_layers, ← List.filterMap_reverse,
    List.find?_filterMap]
  simp only [hentry]
  cases hflag : o.flag? x with
  | none =>
    have hfind : Setting.all.reverse.find?
        (fun y => decide (y = x ∧ (none : Option String).isSome)) = none :=
      List.find?_eq_none.2 (by simp)
    rw [hfind]
    rfl
  | some text =>
    have hfind : Setting.all.reverse.find?
        (fun y => decide (y = x ∧ (some text).isSome)) = some x := by
      cases x <;> rfl
    rw [hfind, Option.bind_some, hflag]
    rfl

end CommandLine.Options

namespace Settings

/-- The value that the environment gives for a setting. -/
def environmentValue? (program : String) (environment : Environment) (x : Setting) : Option Value :=
  (environment.reverse.find? fun v =>
    (Environment.key? program v.1).map Key.path = some x.path).map fun v =>
      .scalar (some "the environment") (Environment.scalarOf v.2)

/-- The variables of the program are those of settings, each in a group. -/
def Grouped (program : String) (environment : Environment) : Prop :=
  ∀ v ∈ environment, ∀ key, Environment.key? program v.1 = some key →
    ∃ group name, Key.path key = [.field group, .field name]

theorem plain_fields {program : String} {environment : Environment}
    (h : Grouped program environment) : ∀ e ∈ Environment.fields program environment, Plain e := by
  intro e he
  obtain ⟨v, hv, hmap⟩ := List.mem_filterMap.1 he
  obtain ⟨key, hkey, rfl⟩ := Option.map_eq_some_iff.1 hmap
  exact ⟨h v hv key hkey, _, _, rfl⟩

theorem gives?_fields {program : String} {environment : Environment}
    (h : Grouped program environment) (x : Setting) :
    gives? x.group.name x.name (Environment.fields program environment) =
      environmentValue? program environment x := by
  rw [gives?_of_plain (plain_fields h), Environment.fields, ← List.filterMap_reverse,
    List.find?_filterMap, environmentValue?]
  have hentry : ∀ v : String × String,
      ((Environment.key? program v.1).map
        (·, Value.scalar (some "the environment") (Environment.scalarOf v.2))).any
          (fun e => Key.path e.1 = [.field x.group.name, .field x.name]) =
        decide ((Environment.key? program v.1).map Key.path = some x.path) := by
    intro v
    cases Environment.key? program v.1 <;> simp [Setting.path]
  simp only [hentry]
  cases hfind : environment.reverse.find? fun v =>
      decide ((Environment.key? program v.1).map Key.path = some x.path) with
  | none => rfl
  | some v =>
    have hv := List.find?_some hfind
    rw [decide_eq_true_eq] at hv
    obtain ⟨key, hkey, -⟩ := Option.map_eq_some_iff.1 hv
    simp [hkey]

/-! ### Layers -/

/-- The sources of these layers, the highest first. -/
def Layers.stack (l : Layers) (environment : Environment) (given : List Fields) : List Fields :=
  l.overrideFields :: (l.program.map (Environment.fields · environment)).getD [] :: given.reverse

theorem Layers.combine_eq (l : Layers) (environment : Environment) (given : List Fields) :
    l.combine environment given = ofFields (fieldsOf (laid (l.stack environment given))) := by
  simp [Layers.combine, Layers.stack, laid]

end Settings

namespace CommandLine.Options

/-- The value that decides a setting: that of an option, else that of the environment, else that of
the highest file that gives it. -/
def decider? (o : Options) (environment : Environment) (given : List Fields) (x : Setting) :
    Option Value :=
  (o.flag? x).map (fun text => .scalar none (.text text)) <|>
    environmentValue? "MODGIT" environment x <|>
    (counted x.group.name given.reverse).findSome? (gives? x.group.name x.name)

theorem findSome?_counted_stack (o : Options) (henv : Grouped "MODGIT" environment)
    (given : List Fields) (x : Setting) :
    (counted x.group.name (o.layers.stack environment given)).findSome?
      (gives? x.group.name x.name) = o.decider? environment given x := by
  have hoptions := amends_of_plain o.plain_overrideFields x.group.name
  have hvariables := amends_of_plain (plain_fields henv) x.group.name
  change (counted _ (_ :: Environment.fields "MODGIT" environment :: _)).findSome? _ = _
  rw [counted, if_pos hoptions, counted, if_pos hvariables, List.findSome?_cons,
    List.findSome?_cons, gives?_overrideFields, gives?_fields henv, decider?]
  cases o.flag? x <;> cases environmentValue? "MODGIT" environment x <;> rfl

theorem present_stack (o : Options) (henv : Grouped "MODGIT" environment)
    (hgiven : ∀ F ∈ given, ∀ e ∈ F, Present e.2) :
    ∀ F ∈ o.layers.stack environment given, ∀ e ∈ F, Present e.2 := by
  intro F hF
  rcases List.mem_cons.1 hF with rfl | hF
  · exact fun e he => present_of_plain (o.plain_overrideFields e he)
  · rcases List.mem_cons.1 hF with rfl | hF
    · exact fun e he => present_of_plain (plain_fields henv e he)
    · exact hgiven F (List.mem_reverse.1 hF)

end CommandLine.Options

/-- What decides a setting is its value. A setting that nothing decides is the standard one if the
highest source that gives anything of its section gives it as a table; if that source replaces the
table, the setting is read from what the source gives alone. If it addresses the section by index, as
in `global[0]`, and leaves no table, it makes a list of what the sources below it give, and the
setting is the one at its place. -/
theorem settings_follow_precedence {o : CommandLine.Options} {directory : String}
    {environment : Environment} {t : FileTree} {s : Settings} (henv : Grouped "MODGIT" environment)
    (h : ((load directory environment o.layers : StateM FileTree _).run t).1 = .ok s) :
    ∃ given, o.sources.mapM (Source.fieldsIn t directory) = .ok given ∧
      ∀ x : Setting,
        (∀ v, o.decider? environment given x = some v → x.convert v = .ok (x.of s)) ∧
        (o.decider? environment given x = none →
          (∀ F, top? x.group.name (o.layers.stack environment given) = some F →
            amends x.group.name F = true ∨ Filled (sectionOf x.group.name F)) →
          x.of s = x.standard) ∧
        ∀ F, top? x.group.name (o.layers.stack environment given) = some F →
          (replaces x.group.name F = true → x.read (sectionOf x.group.name F) = .ok (x.of s)) ∧
          (amends x.group.name F = false → ¬ Filled (sectionOf x.group.name F) →
            replaces x.group.name F = false →
            ∃ origin items, layEach x.group.name F (field x.group.name
                (laid (below x.group.name (o.layers.stack environment given)))) =
              .list origin items ∧ x.ReadFrom items (x.of s)) := by
  obtain ⟨given, hgiven, hcombine⟩ := combine_of_load h
  refine ⟨given, hgiven, fun x => ?_⟩
  rw [Layers.combine_eq] at hcombine
  obtain ⟨hdecided, hstandard, hreplaced⟩ :=
    of_laid (o.present_stack henv (present_of_given hgiven)) hcombine x
  rw [o.findSome?_counted_stack henv] at hdecided hstandard
  refine ⟨hdecided, fun hnone htable => hstandard hnone fun F hF => ?_, hreplaced⟩
  rcases htable F hF with hamends | hfilled
  · obtain ⟨w, hw⟩ := given_of_top hF
    exact filled_of_amends hamends (by simp [hw])
  · exact hfilled

/-! ### Two files of settings -/

def settingsFiles (lower upper : String) : FileTree where
  nodes := [(["modgit.toml"], .file lower.toUTF8), (["more.toml"], .file upper.toUTF8)]

theorem find_settingsFiles (lower upper : String) :
    (settingsFiles lower upper).find "/modgit.toml" = .ok (.file lower.toUTF8) ∧
    (settingsFiles lower upper).find "/more.toml" = .ok (.file upper.toUTF8) := by
  have hlower : (settingsFiles lower upper).locate "/modgit.toml" = .ok ["modgit.toml"] := by
    have hparts : FilePath.parts "/modgit.toml" = ["", "modgit.toml"] := by decide +kernel
    have hstart : "/modgit.toml".startsWith "/" = true := by decide +kernel
    rw [FileTree.locate_eq_foldlM (by decide) (by decide), hparts, FileTree.start, if_pos hstart]
    rfl
  have hupper : (settingsFiles lower upper).locate "/more.toml" = .ok ["more.toml"] := by
    have hparts : FilePath.parts "/more.toml" = ["", "more.toml"] := by decide +kernel
    have hstart : "/more.toml".startsWith "/" = true := by decide +kernel
    rw [FileTree.locate_eq_foldlM (by decide) (by decide), hparts, FileTree.start, if_pos hstart]
    rfl
  rw [FileTree.find, hlower, FileTree.find, hupper]
  exact ⟨rfl, rfl⟩

/-- The command line `-c more.toml`, with or without `--no-discover`. -/
def withMore (noDiscover : Bool) : CommandLine.Options := { configs := ["more.toml"], noDiscover }

theorem fieldsIn_settingsFiles (lower upper : String) (noDiscover : Bool) :
    (withMore noDiscover).sources.mapM (Source.fieldsIn (settingsFiles lower upper) "/") = (do
      let first ← ofDocument (some "modgit.toml") (textOf lower.toUTF8)
      let second ← ofDocument (some "more.toml") (textOf upper.toUTF8)
      return [first, second]) := by
  have hlower : FilePath.join "/" "modgit.toml" = "/modgit.toml" := by decide +kernel
  have hupper : FilePath.join "/" "more.toml" = "/more.toml" := by decide +kernel
  have hlower' : FilePath.relativeTo "/" "/modgit.toml" = "modgit.toml" := by decide +kernel
  have hupper' : FilePath.relativeTo "/" "/more.toml" = "more.toml" := by decide +kernel
  have hsources : (withMore noDiscover).sources =
      [.file "modgit.toml" false, .file "more.toml" true] := rfl
  obtain ⟨hl, hu⟩ := find_settingsFiles lower upper
  rw [← hlower] at hl
  rw [← hupper] at hu
  rw [hsources, List.mapM_cons, List.mapM_cons, List.mapM_nil, fieldsIn_of_find hl,
    fieldsIn_of_find hu, hlower, hlower', hupper, hupper']
  generalize ofDocument (some "modgit.toml") (textOf lower.toUTF8) = first
  generalize ofDocument (some "more.toml") (textOf upper.toUTF8) = second
  cases first <;> cases second <;> rfl

theorem ok_of_toOption {ε α : Type} {x : Except ε α} {a : α} (h : x.toOption = some a) :
    x = .ok a := by
  cases x with
  | error e => cases h
  | ok b => exact congrArg Except.ok (Option.some.inj h)

/-- Each setting comes from another source: in their order the environment, the second file, none,
the first file and an option. -/
def layered : Settings where
  consoleLevel := .debug
  fileLevel := ⟨6, Nat.le_refl 6⟩
  catalogFile := "defs"
  discover := false

def consoleVariable : Environment := [("MODGIT_GLOBAL__OUTPUT_LOG_LEVEL", "4")]

theorem load_layered :
    ((load "/" consoleVariable (withMore true).layers : StateM FileTree _).run
      (settingsFiles "catalog.file = 'defs'" "global.file_log_level = 6")).1 = .ok layered := by
  have hsources : (withMore true).layers.sources = (withMore true).sources := rfl
  rw [load_eq, hsources, fieldsIn_settingsFiles]
  apply ok_of_toOption
  decide +kernel

theorem layered_follows_precedence :
    Grouped "MODGIT" consoleVariable ∧
    ((load "/" consoleVariable (withMore true).layers : StateM FileTree _).run
      (settingsFiles "catalog.file = 'defs'" "global.file_log_level = 6")).1 = .ok layered ∧
    ∃ given, (withMore true).sources.mapM
        (Source.fieldsIn (settingsFiles "catalog.file = 'defs'" "global.file_log_level = 6") "/") =
          .ok given ∧
      ∀ (x : Setting) (v : Value), (withMore true).decider? consoleVariable given x = some v →
        x.convert v = .ok (x.of layered) := by
  have hgrouped : Grouped "MODGIT" consoleVariable := by
    intro v hv key hkey
    obtain rfl := List.mem_singleton.1 hv
    have hname : Environment.key? "MODGIT" "MODGIT_GLOBAL__OUTPUT_LOG_LEVEL" =
        some Setting.consoleLevel.key := by decide +kernel
    obtain rfl := Option.some.inj (hname.symm.trans hkey)
    exact ⟨_, _, Setting.path_key _⟩
  obtain ⟨given, hgiven, hdecided⟩ := settings_follow_precedence hgrouped load_layered
  exact ⟨hgrouped, load_layered, given, hgiven, fun x => (hdecided x).1⟩

/-- Only the first file gives `log_file`, and it is not set: the list in the second file takes the
place of the whole section. -/
theorem list_drops_log_file :
    ((withMore false).sources.mapM (Source.fieldsIn
        (settingsFiles "global.log_file = 'run.log'" "global = [4]") "/")).toOption.map
          (·.map fun F => (gives? "global" "log_file" F).bind scalar?) =
      some [some (some "modgit.toml", .text "run.log"), none] ∧
    ((load "/" [] (withMore false).layers : StateM FileTree _).run
      (settingsFiles "global.log_file = 'run.log'" "global = [4]")).1 =
      .ok { consoleLevel := .debug, logFile := none } := by
  have hsources : (withMore false).layers.sources = (withMore false).sources := rfl
  rw [load_eq, hsources, fieldsIn_settingsFiles]
  refine ⟨?_, ok_of_toOption ?_⟩
  · decide +kernel
  · decide +kernel

end ModuleGraph
