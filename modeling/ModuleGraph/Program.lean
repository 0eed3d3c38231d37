import ModuleGraph.Catalog
import ModuleGraph.CommandLine.Settings
import ModuleGraph.FileList
import ModuleGraph.Log.Steps
import ModuleGraph.Report
import ModuleGraph.Worktree

/-!
# The program

A run reads its command line and its settings, opens its log, and answers one command. An answer is
a text for standard output or a list of causes of failure, with the events that led to it; the log
levels decide which events are written where.
-/

namespace ModuleGraph.Program

def version : String := "0.1.0"

/-- What surrounds a run. -/
structure Surroundings (m : Type → Type) where
  /-- The current directory, as an absolute path. -/
  directory : String
  environment : Settings.Environment
  /-- All of standard input. -/
  input : m ByteArray
  /-- The time, as log files have it. -/
  time : m String

/-- What a run leaves behind, besides its log file. -/
structure Outcome where
  exitCode : Nat
  output : String := ""
  /-- Lines for standard error. -/
  errors : List String := []
  deriving Repr, DecidableEq

structure Answer where
  events : List Log.Event := []
  /-- A text, or an error with the causes behind it. -/
  result : Except (List String) String

def printed (lines : List String) : String := String.join (lines.map (· ++ "\n"))

/-- A report as a text; an empty one is not printed at all. -/
def emitted (report : String) : String := if report = "" then "" else report ++ "\n"

def refused (events : List Log.Event) (e : CatalogError) : Answer where
  events
  result := .error (Error.catalog e).chain

def note (part message : String) (fields : List (String × String)) : Log.Event :=
  ⟨.info, "modgit::cmd::" ++ part, message, fields⟩

/-- The names that patterns select; all names if there are none. -/
def selected (d : Definitions) (patterns : List String) : Except CatalogError (List String) :=
  if patterns = [] then .ok d.names else d.matching patterns

def listAnswer (d : Definitions) (patterns : List String) (all : Bool) : Answer :=
  let events := Log.selectingEvents Selection.globMatcher d.names patterns
  match selected d patterns with
  | .error e => refused events e
  | .ok names =>
    let lines := Report.list d names all
    { events := events ++ names.flatMap (Log.loadingEvents d)
      result := .ok (printed (if lines = [] then ["No modules found"] else lines)) }

def about (d : Definitions) (name : String) (answer : Module → Answer) : Answer :=
  let events := Log.loadingEvents d name
  match d.require name with
  | .error e => refused events e
  | .ok m => { answer m with events := events ++ (answer m).events }

def showAnswer (format : Report.Format) (m : Module) : Answer where
  result := .ok (emitted (Report.module m format))

def pathsAnswer (d : Definitions) (format : Report.Format) (m : Module) : Answer :=
  let r := resolve d m
  { events := Log.resolvingEvents d m ++
      [note "paths" "Resolved module"
        [("module", r.module), ("paths", toString r.paths.length),
          ("warnings", toString r.warnings.length)]]
    result := .ok (emitted (Report.resolution r format)) }

def planAnswer (d : Definitions) (format : Report.Format) (raw : Bool) (m : Module) : Answer :=
  let p := plan d m
  { events := Log.planningEvents d m ++
      [note "plan" "Planned visibility"
        [("module", p.module), ("excluded", toString p.hidden.length),
          ("warnings", toString p.warnings.length)]]
    result := .ok (emitted (Report.plan p raw format)) }

/-- Tells files apart by the paths of a module. There may be no readable list of files. -/
def classifyAnswer (d : Definitions) (format : Report.Format) (outside : Bool)
    (files : Option (List String)) (m : Module) : Answer :=
  let events := Log.resolvingEvents d m
  match files with
  | none => { events, result := .error [FileList.unreadable] }
  | some files =>
    let p := Path.partition files (resolve d m).paths
    { events := events ++
        [{ note "classify" "Classified files"
            [("module", m.name), ("inside", toString p.inside.length),
              ("outside", toString p.outside.length)] with severity := .debug }]
      result := .ok (emitted (Report.partition p outside format)) }

def optionsAnswer (s : Settings) (definitions : String) (files : List String) : Answer where
  result := .ok (printed (s.optionLines ++ ["", "definitions: " ++ definitions] ++
    if files = [] then ["No configuration files loaded"] else files.map ("config: " ++ ·)))

/-- The answer to a command that asks about the definitions. A command without files needs those of
`listed`. -/
def ask (d : Definitions) (listed : Option (List String)) : CommandLine.Command → Answer
  | .list patterns all => listAnswer d patterns all
  | .show name format => about d name (showAnswer format)
  | .paths name format => about d name (pathsAnswer d format)
  | .plan name format raw => about d name (planAnswer d format raw)
  | .classify name files outside format =>
    about d name (classifyAnswer d format outside
      (if files = [] then listed else some (FileList.ofArguments files)))
  | .version | .options => { result := .ok "" }

/-- Standard input is asked for by a command that classifies files and names none. -/
def asksInput (d : Definitions) : CommandLine.Command → Bool
  | .classify name files _ _ => files = [] && (d.load name).isSome
  | _ => false

/-- Where the log goes: as the settings say, or, without settings, as the options do. -/
def logSetup (o : CommandLine.Options) : Option Settings → Log.Setup
  | some s => { console := s.consoleLevel, file := s.fileLevel, path := s.logFile, ansi := false }
  | none =>
    let console := (o.logLevel.bind Log.Level.ofNat?).getD .warn
    { console, file := (o.fileLogLevel.bind Log.Level.ofNat?).getD console, path := o.logFile,
      ansi := false }

def Answer.outcome (a : Answer) (setup : Log.Setup) : Outcome :=
  let lines := (a.events.filter fun e => setup.console.admits e.severity).map Log.Event.consoleLine
  match a.result with
  | .ok output => { exitCode := 0, output, errors := lines }
  | .error causes =>
    { exitCode := 1, errors := lines ++ ["Error: " ++ ": ".intercalate causes] }

def failed (lines : List String) : Outcome := { exitCode := 1, errors := lines }

def usageOutcome : CommandLine.UsageError → Outcome
  | .displayHelp => { exitCode := 0, output := printed ["Usage: modgit [OPTIONS] [COMMAND]"] }
  | .displayVersion => { exitCode := 0, output := printed ["modgit " ++ version] }
  | _ => { exitCode := 2, errors := ["Usage: modgit [OPTIONS] [COMMAND]"] }

variable {m : Type → Type} [Monad m] [Files m]

/-- Makes the log file, with the directories it lies in. -/
def openLog : Option String → m (Except String Unit)
  | none => return .ok ()
  | some path => do
    let directory := (FilePath.parent? path).getD ""
    if directory ≠ "" then
      if let .error e ← Files.makeDirectory directory then
        return .error s!"failed to create log directory {directory}: {e.text}"
    match ← Files.append path .empty with
    | .error e => return .error s!"failed to open log file {path}: {e.text}"
    | .ok () => return .ok ()

def writeLog (s : Surroundings m) (setup : Log.Setup) (events : List Log.Event) : m Unit := do
  match setup.path with
  | none => return ()
  | some path =>
    for e in events.filter fun e => setup.file.admits e.severity do
      let line := (← s.time) ++ " " ++ e.fileLine ++ "\n"
      let _ ← Files.append path line.toUTF8

/-- Where the definitions are, with what is said while they are looked for. -/
def locate (s : Surroundings m) (settings : Settings) : m (String × List Log.Event) := do
  let (base, e) ← Worktree.base s.directory settings.catalogFile settings.discover
  let event (e : WorktreeError) : Log.Event :=
    ⟨.debug, "modgit::git", "No worktree found, using current directory",
      [("error", (Error.worktree e).text)]⟩
  return (FilePath.join base settings.catalogFile, (e.map event).toList)

def askText (s : Surroundings m) (path : String) (c : CommandLine.Command) (text : Option String) :
    m Answer := do
  let missing : List Log.Event := if text.isSome then [] else
    [Log.catalogEvent .debug "Definition file not found, catalog is empty" [("path", path)]]
  match (Store.file path).definitions text with
  | .error e => return refused missing e
  | .ok d =>
    let listed ← if asksInput d c then FileList.read? <$> s.input else pure none
    let a := ask d listed c
    return { a with events := missing ++ a.events }

def answer (s : Surroundings m) (settings : Settings) (files : List String) :
    CommandLine.Command → m Answer
  | .version => return { result := .ok (printed [version]) }
  | .options => do
    let (path, events) ← locate s settings
    return { optionsAnswer settings path files with events }
  | c => do
    let (path, events) ← locate s settings
    let events := events ++
      [⟨.debug, "modgit", "Reading module definitions", [("path", path)]⟩]
    match ← (Store.file path).text? with
    | .error e => return refused events e
    | .ok text =>
      let a ← askText s path c text
      return { a with events := events ++ a.events }

/-- What is said where there is no command to answer. -/
def noCommand : List String :=
  ["No command specified. Use --help for usage information.", "Error: No command specified"]

def runCommand (s : Surroundings m) (setup : Log.Setup) (settings : Settings) (files : List String) :
    Option CommandLine.Command → m Outcome
  | none => return failed noCommand
  | some c => do
    let a ← answer s settings files c
    writeLog s setup a.events
    return a.outcome setup

def run (s : Surroundings m) (args : List String) : m Outcome := do
  match CommandLine.read args with
  | .error e => return usageOutcome e
  | .ok ⟨options, command⟩ =>
    let layers := options.layers
    let files ← Settings.Source.files layers.sources
    let settings ← Settings.load s.directory s.environment layers
    let setup := logSetup options settings.toOption
    match ← openLog setup.path with
    | .error text => return failed ["Failed to initialize logging: " ++ text]
    | .ok () =>
      match settings with
      | .error f => return failed ["Failed to load config: " ++ ": ".intercalate f.chain]
      | .ok settings => runCommand s setup settings files command

end ModuleGraph.Program
