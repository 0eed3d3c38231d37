import ModuleGraph.CommandLine.Arguments
import ModuleGraph.Report

/-!
# The command line

Options for all commands stand before the command, those of a command behind it. Options that set a
setting become overrides of the settings.
-/

namespace ModuleGraph

namespace CommandLine

/-- Options for all commands. -/
structure Options where
  /-- Settings files, besides the one in the current directory. -/
  configs : List String := []
  file : Option String := none
  noDiscover : Bool := false
  logLevel : Option Nat := none
  fileLogLevel : Option Nat := none
  logFile : Option String := none
  deriving Repr, DecidableEq

inductive Command
  | version
  | options
  | list (patterns : List String) (all : Bool)
  | «show» (module : String) (format : Report.Format)
  | paths (module : String) (format : Report.Format)
  | plan (module : String) (format : Report.Format) (raw : Bool)
  | classify (module : String) (files : List String) (outside : Bool) (format : Report.Format)
  deriving Repr, DecidableEq

end CommandLine

structure CommandLine where
  options : CommandLine.Options
  command : Option CommandLine.Command
  deriving Repr, DecidableEq

namespace CommandLine

def helpOption : Argument := ⟨"help", some 'h', .help⟩

def formatOption : Argument := ⟨"format", none, .value .format false⟩

def moduleArgument : Argument := ⟨"module", none, .value .text false⟩

def commandNames : List String :=
  ["version", "options", "list", "show", "paths", "plan", "classify", "help"]

/-- What may stand before the command. -/
def rootGrammar : Grammar where
  options :=
    [⟨"config", some 'c', .value .path true⟩, ⟨"file", some 'f', .value .path false⟩,
      ⟨"no-discover", none, .switch⟩, ⟨"log-level", some 'l', .value .level false⟩,
      ⟨"file-log-level", none, .value .level false⟩, ⟨"log-file", none, .value .path false⟩,
      helpOption, ⟨"version", some 'V', .version⟩]
  commands := commandNames

def plainGrammar : Grammar := { options := [helpOption] }

def listGrammar : Grammar where
  options := [⟨"all", some 'a', .switch⟩, helpOption]
  positionals := [⟨"patterns", none, .value .text true⟩]

def moduleGrammar : Grammar where
  options := [formatOption, helpOption]
  positionals := [moduleArgument]

def planGrammar : Grammar where
  options := [formatOption, ⟨"raw", none, .switch⟩, helpOption]
  positionals := [moduleArgument]

def classifyGrammar : Grammar where
  options := [⟨"outside", none, .switch⟩, formatOption, helpOption]
  positionals := [moduleArgument, ⟨"files", none, .value .path true⟩]

namespace Found

/-- The output format asked for; text if none is. -/
def format (f : Found) : Report.Format := if f.get? "format" = some "json" then .json else .text

def module (f : Found) : Except UsageError String :=
  match f.get? "module" with
  | some m => .ok m
  | none => .error .missingRequiredArgument

end Found

def Command.read (name : String) (args : List String) : Except UsageError Command :=
  match name with
  | "version" => (plainGrammar.read args).map fun _ => .version
  | "options" => (plainGrammar.read args).map fun _ => .options
  | "list" => (listGrammar.read args).map fun f => .list (f.all "patterns") (f.has "all")
  | "show" => do
    let f ← moduleGrammar.read args
    return .show (← f.module) f.format
  | "paths" => do
    let f ← moduleGrammar.read args
    return .paths (← f.module) f.format
  | "plan" => do
    let f ← planGrammar.read args
    return .plan (← f.module) f.format (f.has "raw")
  | "classify" => do
    let f ← classifyGrammar.read args
    return .classify (← f.module) (f.all "files") (f.has "outside") f.format
  | _ => .error (helpOn args)
where
  /-- Help is there for the program and for each command. -/
  helpOn : List String → UsageError
    | [] => .displayHelp
    | [name] => if commandNames.contains name then .displayHelp else .invalidSubcommand
    | _ => .invalidSubcommand

def Options.ofFound (f : Found) : Options where
  configs := f.all "config"
  file := f.get? "file"
  noDiscover := f.has "no-discover"
  logLevel := (f.get? "log-level").bind level?
  fileLogLevel := (f.get? "file-log-level").bind level?
  logFile := f.get? "log-file"

/-- Reads the arguments of the program. A command's own arguments are judged before a pending option
in front of it. -/
def read (args : List String) : Except UsageError CommandLine := do
  let (s, rest) ← Scan.run rootGrammar {} args
  let command ← match rest with
    | none => pure none
    | some (name, args) => some <$> Command.read name args
  return ⟨Options.ofFound (← s.settle).found, command⟩

namespace Options

/-- The settings that the options set, as keys and texts. The level of the log file follows that of
the console unless it is set itself. -/
def overrides (o : Options) : List (String × String) :=
  (o.logLevel.map fun n => ("global.output_log_level", toString n)).toList ++
    ((o.fileLogLevel <|> o.logLevel).map fun n => ("global.file_log_level", toString n)).toList ++
    (o.logFile.map fun p => ("global.log_file", p)).toList ++
    (o.file.map fun p => ("catalog.file", p)).toList ++
    if o.noDiscover then [("catalog.discover", "false")] else []

end Options

end CommandLine

end ModuleGraph
