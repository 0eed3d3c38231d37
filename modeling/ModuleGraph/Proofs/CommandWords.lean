import ModuleGraph.CommandLine
import ModuleGraph.Proofs.FoundArguments

/-!
# Command lines as they are written

A command line is written in words: the options of the program that are set, each with its value
attached, then the name of the command, its own options, and its positional arguments behind `--`.
A value that looks like an option, a command or `--` is never taken for one, since it is attached or
stands behind `--`. What the words cannot carry, no words can: an empty path and a level out of range
are refused wherever they stand.
-/

namespace ModuleGraph

/-- The name of a format among the values of its option. -/
def Report.Format.name : Report.Format → String
  | text => "text"
  | json => "json"

namespace CommandLine

/-- The options that stand in front of the command. -/
def Options.words (o : Options) : List String :=
  o.configs.map (attached "config") ++ o.file.toList.map (attached "file") ++
    (if o.noDiscover then [alone "no-discover"] else []) ++
    (o.logLevel.map toString).toList.map (attached "log-level") ++
    (o.fileLogLevel.map toString).toList.map (attached "file-log-level") ++
    o.logFile.toList.map (attached "log-file")

namespace Command

def name : Command → String
  | version => "version"
  | options => "options"
  | list .. => "list"
  | «show» .. => "show"
  | paths .. => "paths"
  | plan .. => "plan"
  | classify .. => "classify"

/-- What stands behind the name of a command: its options, and its positional arguments behind `--`. -/
def arguments : Command → List String
  | version => []
  | options => []
  | list patterns all => (if all then [alone "all"] else []) ++ "--" :: patterns
  | «show» m format => [attached "format" format.name, "--", m]
  | paths m format => [attached "format" format.name, "--", m]
  | plan m format raw =>
    (if raw then [alone "raw"] else []) ++ [attached "format" format.name, "--", m]
  | classify m files outside format =>
    (if outside then [alone "outside"] else []) ++ attached "format" format.name :: "--" :: m :: files

end Command

def words (c : CommandLine) : List String :=
  c.options.words ++
    match c.command with
    | none => []
    | some k => k.name :: k.arguments

/-- Paths are not empty, and levels lie in their range. -/
structure Options.Writable (o : Options) : Prop where
  configs : ∀ p ∈ o.configs, p ≠ ""
  file : ∀ p ∈ o.file, p ≠ ""
  logLevel : ∀ n ∈ o.logLevel, n ≤ 6
  fileLogLevel : ∀ n ∈ o.fileLogLevel, n ≤ 6
  logFile : ∀ p ∈ o.logFile, p ≠ ""

def Command.files : Command → List String
  | classify _ files .. => files
  | _ => []

structure Writable (c : CommandLine) : Prop where
  options : c.options.Writable
  files : ∀ k ∈ c.command, ∀ p ∈ k.files, p ≠ ""

/-! ### Options of the program -/

theorem allows_text (v : String) : ValueKind.text.Allows v := rfl

theorem allows_path {v : String} (h : v ≠ "") : ValueKind.path.Allows v := if_neg h

theorem allows_paths {l : Option String} (h : ∀ p ∈ l, p ≠ "") : ∀ p ∈ l, ValueKind.path.Allows p :=
  fun p hp => allows_path (h p hp)

theorem level?_toString {n : Nat} (h : n ≤ 6) : level? (toString n) = some n := by
  have hall : ∀ n ≤ 6, level? (toString n) = some n := by decide
  exact hall n h

theorem allows_level {n : Nat} (h : n ≤ 6) : ValueKind.level.Allows (toString n) := by
  rw [ValueKind.Allows, ValueKind.check, level?_toString h]
  rfl

theorem allows_levels {l : Option Nat} (h : ∀ n ∈ l, n ≤ 6) :
    ∀ v ∈ l.map toString, ValueKind.level.Allows v := by
  intro v hv
  obtain ⟨n, hn, rfl⟩ := Option.map_eq_some_iff.1 hv
  exact allows_level (h n hn)

theorem allows_format (format : Report.Format) : ValueKind.format.Allows format.name := by
  cases format <;> rfl

namespace Options

/-- What is found in the words of the options. -/
def found (o : Options) : Found :=
  .of "config" o.configs ++ .of "file" o.file.toList ++
    .of "no-discover" (if o.noDiscover then [""] else []) ++
    .of "log-level" (o.logLevel.map toString).toList ++
    .of "file-log-level" (o.fileLogLevel.map toString).toList ++ .of "log-file" o.logFile.toList

theorem run_words {o : Options} (h : o.Writable) (rest : List String) :
    Scan.run rootGrammar {} (o.words ++ rest) = Scan.run rootGrammar { found := o.found } rest := by
  have hcommands : ∀ c ∈ rootGrammar.commands, ¬['-', '-'] <+: c.toList := by decide
  have hconfig : rootGrammar.Offers "config" _ := ⟨rfl, by decide, by decide⟩
  have hfile : rootGrammar.Offers "file" _ := ⟨rfl, by decide, by decide⟩
  have hdiscover : rootGrammar.Offers "no-discover" _ := ⟨rfl, by decide, by decide⟩
  have hlevel : rootGrammar.Offers "log-level" _ := ⟨rfl, by decide, by decide⟩
  have hfileLevel : rootGrammar.Offers "file-log-level" _ := ⟨rfl, by decide, by decide⟩
  have hlogFile : rootGrammar.Offers "log-file" _ := ⟨rfl, by decide, by decide⟩
  simp only [words, List.append_assoc]
  rw [Scan.run_repeated hconfig hcommands _ rfl fun p hp => allows_path (h.configs p hp),
    Scan.run_optional hfile hcommands _ _ rfl (by simp) (allows_paths h.file),
    Scan.run_switch hdiscover hcommands _ _ rfl (by simp),
    Scan.run_optional hlevel hcommands _ _ rfl (by simp) (allows_levels h.logLevel),
    Scan.run_optional hfileLevel hcommands _ _ rfl (by simp) (allows_levels h.fileLogLevel),
    Scan.run_optional hlogFile hcommands _ _ rfl (by simp) (allows_paths h.logFile)]
  rfl

theorem bind_level?_map {l : Option Nat} (h : ∀ n ∈ l, n ≤ 6) : (l.map toString).bind level? = l := by
  cases l with
  | none => rfl
  | some n => exact level?_toString (h n rfl)

theorem ofFound_found {o : Options} (h : o.Writable) : ofFound o.found = o := by
  obtain ⟨configs, file, noDiscover, logLevel, fileLogLevel, logFile⟩ := o
  cases noDiscover <;>
    simp [ofFound, found, bind_level?_map h.logLevel, bind_level?_map h.fileLogLevel]

end Options

/-! ### Commands -/

namespace Command

open Scan

theorem read_list (patterns : List String) (all : Bool) :
    read "list" (arguments (.list patterns all)) = .ok (.list patterns all) := by
  have hall : listGrammar.Offers "all" _ := ⟨rfl, by decide, by decide⟩
  have hpatterns : listGrammar.positionals[0]? = some ⟨"patterns", none, .value .text true⟩ := rfl
  have hread : listGrammar.read (arguments (.list patterns all)) =
      .ok (.of "all" (if all then [""] else []) ++ .of "patterns" patterns) := by
    rw [collect_empty, arguments, collect_congr (run_switch hall (by decide) _ _ rfl rfl),
      collect_escape rfl]
    exact collect_rest hpatterns rfl fun p _ => allows_text p
  rw [read, hread]
  cases all <;> simp [Except.map]

variable {g : Grammar} {f : Found}

section About

variable (hg : g.commands = []) (hformat : g.Offers "format" formatOption)
  (hmodule : g.positionals[0]? = some moduleArgument)
  (hf : f.has "format" = false) (hm : f.has "module" = false)
include hg hformat hmodule hf hm

/-- The format and the module are read behind the switches of a command. -/
theorem collect_about (format : Report.Format) (m : String) (rest : List String) :
    collect g { found := f } (attached "format" format.name :: "--" :: m :: rest) =
      collect g { found := f ++ .of "format" [format.name] ++ .of "module" [m], filled := 1,
                  trailing := true } rest := by
  have hnew : Found.has (f ++ .of "format" [format.name]) "module" = false := by simp [hm]
  rw [collect_congr (run_attached hformat (by simp [hg]) _ rfl (.inr hf) (allows_format format)),
    collect_escape hg, collect_single hmodule rfl hnew (allows_text m)]
  rfl

end About

/-- A command about a module has the module and the format that are found. -/
theorem read_about (command : String → Report.Format → Found → Command) {args : List String}
    (m : String) (format : Report.Format) (hread : g.read args = .ok f)
    (hm : f.get? "module" = some m) (hformat : f.get? "format" = some format.name) :
    (do
      let f ← g.read args
      return command (← f.module) f.format f) = Except.ok (command m format f) := by
  have hmodule : f.module = .ok m := by rw [Found.module, hm]
  have hfound : f.format = format := by
    cases format <;> simp [Found.format, hformat, Report.Format.name]
  rw [hread, ok_bind, hmodule, ok_bind, hfound]
  rfl

theorem read_moduleGrammar (m : String) (format : Report.Format) :
    moduleGrammar.read [attached "format" format.name, "--", m] =
      .ok (.of "format" [format.name] ++ .of "module" [m]) := by
  have hformat : moduleGrammar.Offers "format" formatOption := ⟨rfl, by decide, by decide⟩
  rw [collect_empty, collect_about rfl hformat rfl rfl rfl]
  rfl

theorem read_show (m : String) (format : Report.Format) :
    read "show" (arguments (.show m format)) = .ok (.show m format) :=
  read_about (fun m format _ => .show m format) m format (read_moduleGrammar m format) (by simp)
    (by simp)

theorem read_paths (m : String) (format : Report.Format) :
    read "paths" (arguments (.paths m format)) = .ok (.paths m format) :=
  read_about (fun m format _ => .paths m format) m format (read_moduleGrammar m format) (by simp)
    (by simp)

theorem read_plan (m : String) (format : Report.Format) (raw : Bool) :
    read "plan" (arguments (.plan m format raw)) = .ok (.plan m format raw) := by
  have hraw : planGrammar.Offers "raw" _ := ⟨rfl, by decide, by decide⟩
  have hformat : planGrammar.Offers "format" formatOption := ⟨rfl, by decide, by decide⟩
  have hread : planGrammar.read (arguments (.plan m format raw)) =
      .ok (.of "raw" (if raw then [""] else []) ++ .of "format" [format.name] ++ .of "module" [m]) := by
    rw [collect_empty, arguments, collect_congr (run_switch hraw (by decide) _ _ rfl rfl),
      collect_about rfl hformat rfl (by simp) (by simp)]
    rfl
  have hplan : read "plan" (arguments (.plan m format raw)) = .ok (.plan m format (Found.has _ "raw")) :=
    read_about (fun m format f => .plan m format (f.has "raw")) m format hread (by simp) (by simp)
  rw [hplan]
  cases raw <;> simp

theorem read_classify (m : String) {files : List String} (hfiles : ∀ p ∈ files, p ≠ "")
    (outside : Bool) (format : Report.Format) :
    read "classify" (arguments (.classify m files outside format)) =
      .ok (.classify m files outside format) := by
  have houtside : classifyGrammar.Offers "outside" _ := ⟨rfl, by decide, by decide⟩
  have hformat : classifyGrammar.Offers "format" formatOption := ⟨rfl, by decide, by decide⟩
  have hpositional : classifyGrammar.positionals[1]? = some ⟨"files", none, .value .path true⟩ := rfl
  have hread : classifyGrammar.read (arguments (.classify m files outside format)) =
      .ok (.of "outside" (if outside then [""] else []) ++ .of "format" [format.name] ++
        .of "module" [m] ++ .of "files" files) := by
    rw [collect_empty, arguments, collect_congr (run_switch houtside (by decide) _ _ rfl rfl),
      collect_about rfl hformat rfl (by simp) (by simp)]
    exact collect_rest hpositional rfl fun p hp => allows_path (hfiles p hp)
  have hclassify : read "classify" (arguments (.classify m files outside format)) =
      .ok (.classify m (Found.all _ "files") (Found.has _ "outside") format) :=
    read_about (fun m format f => .classify m (f.all "files") (f.has "outside") format) m format hread
      (by simp) (by simp)
  rw [hclassify]
  cases outside <;> simp

/-- What is written behind the name of a command is read as that command. -/
theorem read_arguments {c : Command} (h : ∀ p ∈ c.files, p ≠ "") : read c.name c.arguments = .ok c := by
  cases c with
  | version => rfl
  | options => rfl
  | list patterns all => exact read_list patterns all
  | «show» m format => exact read_show m format
  | paths m format => exact read_paths m format
  | plan m format raw => exact read_plan m format raw
  | classify m files outside format => exact read_classify m h outside format

theorem run_name (c : Command) (f : Found) (args : List String) :
    Scan.run rootGrammar { found := f } (c.name :: args) =
      .ok ({ found := f }, some (c.name, args)) := by
  cases c <;> rfl

end Command

/-! ### What can be read -/

theorem level?_le {v : String} {n : Nat} (h : level? v = some n) : n ≤ 6 := by
  unfold level? at h
  split at h
  · split at h
    · cases h
      omega
    · cases h
  · cases h

section Found

variable {g : Grammar} {f : Found} {n p : String} (hf : ∀ e ∈ f, g.Takes e.1 e.2)
  (hpath : ∀ a ∈ g.arguments, a.name = n → ∃ repeatable, a.kind = .value .path repeatable)
include hf hpath

theorem path_ne_of_mem (h : (n, p) ∈ f) : p ≠ "" := by
  obtain ⟨a, ha, hname, hallows⟩ := hf _ h
  obtain ⟨repeatable, hkind⟩ := hpath a ha hname
  rintro rfl
  cases hallows _ _ hkind

theorem path_ne_of_mem_all (h : p ∈ f.all n) : p ≠ "" := by
  obtain ⟨⟨n', p'⟩, he, rfl⟩ := List.mem_map.1 h
  obtain ⟨hmem, hname⟩ := List.mem_filter.1 he
  obtain rfl : n' = n := beq_iff_eq.1 hname
  exact path_ne_of_mem hf hpath hmem

theorem path_ne_of_get? (h : p ∈ f.get? n) : p ≠ "" := by
  obtain ⟨⟨n', p'⟩, he, rfl⟩ := Option.map_eq_some_iff.1 h
  obtain rfl : n' = n := by simpa using List.find?_some he
  exact path_ne_of_mem hf hpath (List.mem_of_find?_eq_some he)

end Found

theorem Options.writable_ofFound {f : Found} (hf : ∀ e ∈ f, rootGrammar.Takes e.1 e.2) :
    (ofFound f).Writable where
  configs p hp := path_ne_of_mem_all hf (by decide) hp
  file p hp := path_ne_of_get? hf (by decide) hp
  logLevel n hn := by
    obtain ⟨v, -, hv⟩ := Option.bind_eq_some_iff.1 hn
    exact level?_le hv
  fileLogLevel n hn := by
    obtain ⟨v, -, hv⟩ := Option.bind_eq_some_iff.1 hn
    exact level?_le hv
  logFile p hp := path_ne_of_get? hf (by decide) hp

theorem Command.files_of_read {name : String} {args : List String} {c : Command}
    (h : read name args = .ok c) : ∀ p ∈ c.files, p ≠ "" := by
  unfold read at h
  split at h
  case h_1 | h_2 | h_3 =>
    obtain ⟨-, -, rfl⟩ := exists_of_map_eq_ok h
    exact fun _ hp => absurd hp List.not_mem_nil
  case h_4 | h_5 | h_6 =>
    obtain ⟨f, -, h⟩ := exists_of_bind_eq_ok h
    obtain ⟨m, -, h⟩ := exists_of_bind_eq_ok h
    cases h
    exact fun _ hp => absurd hp List.not_mem_nil
  case h_7 =>
    obtain ⟨f, hread, h⟩ := exists_of_bind_eq_ok h
    obtain ⟨m, -, h⟩ := exists_of_bind_eq_ok h
    cases h
    exact fun p hp => path_ne_of_mem_all (takes_of_read hread) (by decide) hp
  case h_8 => cases h

theorem writable_of_read {args : List String} {c : CommandLine} (h : read args = .ok c) :
    c.Writable := by
  obtain ⟨⟨s, rest⟩, hrun, h⟩ := exists_of_bind_eq_ok h
  have hsound := Scan.sound_empty.run hrun
  have hoptions : ∀ command, (do return ⟨Options.ofFound (← s.settle).found, command⟩) = Except.ok c →
      c.options.Writable ∧ c.command = command := by
    intro command h
    obtain ⟨settled, hsettle, h⟩ := exists_of_bind_eq_ok h
    cases h
    exact ⟨Options.writable_ofFound (hsound.settle hsettle).found, rfl⟩
  cases rest with
  | none =>
    obtain ⟨hwritable, hcommand⟩ := hoptions none h
    refine ⟨hwritable, ?_⟩
    rw [hcommand]
    exact fun _ hk => nomatch hk
  | some rest =>
    obtain ⟨command, hcommand, h⟩ := exists_of_bind_eq_ok h
    obtain ⟨k, hread, rfl⟩ := exists_of_map_eq_ok hcommand
    obtain ⟨hwritable, hcommand⟩ := hoptions (some k) h
    refine ⟨hwritable, ?_⟩
    rw [hcommand]
    rintro _ ⟨⟩
    exact Command.files_of_read hread

theorem read_of_writable {c : CommandLine} (h : c.Writable) : read c.words = .ok c := by
  obtain ⟨options, command⟩ := c
  have hoptions : Options.ofFound options.found = options := Options.ofFound_found h.options
  rw [read, words, Options.run_words h.options]
  cases command with
  | none =>
    rw [Scan.run, ok_bind]
    change Except.ok (CommandLine.mk (Options.ofFound options.found) none) = _
    rw [hoptions]
  | some k =>
    rw [k.run_name, ok_bind]
    simp only [Command.read_arguments (h.files k rfl)]
    change Except.ok (CommandLine.mk (Options.ofFound options.found) (some k)) = _
    rw [hoptions]

/-- A command line is read from its words as it was exactly if its paths are not empty and its levels
lie in their range, whatever its other values look like. All that can be read is of this kind. -/
theorem read_words (c : CommandLine) :
    (read c.words = .ok c ↔ c.Writable) ∧ ((∃ args, read args = .ok c) ↔ c.Writable) := by
  refine ⟨⟨writable_of_read, read_of_writable⟩, ?_, ?_⟩
  · rintro ⟨args, h⟩
    exact writable_of_read h
  · intro h
    exact ⟨c.words, read_of_writable h⟩

/-- Values that look like options, commands and `--` itself. -/
def disguised : CommandLine where
  options :=
    { configs := ["--help", "classify", "a=b"], file := some "-f", noDiscover := true,
      logLevel := some 0, fileLogLevel := some 6, logFile := some "=" }
  command := some (.classify "--" ["--outside", "list", "--", "-h", "--format=text"] true .json)

theorem disguised_is_read_back :
    disguised.Writable ∧ disguised.words =
      ["--config=--help", "--config=classify", "--config=a=b", "--file=-f", "--no-discover",
        "--log-level=0", "--file-log-level=6", "--log-file==", "classify", "--outside",
        "--format=json", "--", "--", "--outside", "list", "--", "-h", "--format=text"] ∧
      read disguised.words = .ok disguised := by
  have hwritable : disguised.Writable := by
    constructor
    · constructor <;> decide
    · decide
  exact ⟨hwritable, by decide, (read_words disguised).1.2 hwritable⟩

end CommandLine

end ModuleGraph
