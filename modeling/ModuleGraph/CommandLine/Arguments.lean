import ModuleGraph.Decimal.Reader

/-!
# Arguments

Reading a list of arguments against a grammar of options and positional arguments. A value stands
behind its option or is attached to it (`--file=x`, `-fx`, `-f=x`); after `--` nothing is an option.
What stands behind an option is checked only when the next argument of another kind is recognised,
so an unknown argument is reported before it.
-/

namespace ModuleGraph.CommandLine

/-- Why a command line is refused, or what it asks for in place of a command. -/
inductive UsageError
  | argumentConflict
  | displayHelp
  | displayVersion
  | invalidSubcommand
  | invalidValue
  | missingRequiredArgument
  | tooManyValues
  | unknownArgument
  | valueValidation
  deriving Repr, DecidableEq

inductive ValueKind
  | text
  /-- A text that is not empty. -/
  | path
  /-- An integer from 0 to 6. -/
  | level
  /-- `text` or `json`. -/
  | format
  deriving Repr, DecidableEq

inductive ArgumentKind
  /-- Stands alone, once. -/
  | switch
  | value (kind : ValueKind) (repeatable : Bool)
  | help
  | version
  deriving Repr, DecidableEq

structure Argument where
  name : String
  short : Option Char := none
  kind : ArgumentKind
  deriving Repr, DecidableEq

structure Grammar where
  options : List Argument
  /-- In order; one that is repeatable takes all that follow. -/
  positionals : List Argument := []
  /-- Names of commands, which have grammars of their own. -/
  commands : List String := []

/-- The arguments found, each with its value, in order. -/
abbrev Found := List (String × String)

namespace Found

def has (f : Found) (name : String) : Bool := f.any (·.1 == name)

def all (f : Found) (name : String) : List String := (f.filter (·.1 == name)).map (·.2)

def get? (f : Found) (name : String) : Option String := (f.find? (·.1 == name)).map (·.2)

end Found

def level? (s : String) : Option Nat :=
  match Decimal.integer? s with
  | some n => if 0 ≤ n ∧ n ≤ 6 then some n.toNat else none
  | none => none

def ValueKind.check (k : ValueKind) (v : String) : Except UsageError Unit :=
  match k with
  | text => .ok ()
  | path => if v = "" then .error .invalidValue else .ok ()
  | level => if (level? v).isSome then .ok () else .error .valueValidation
  | format => if v = "text" ∨ v = "json" then .ok () else .error .invalidValue

def Argument.take (a : Argument) (values : List String) (f : Found) : Except UsageError Found :=
  match a.kind with
  | .help => .error .displayHelp
  | .version => .error .displayVersion
  | .switch => if f.has a.name then .error .argumentConflict else .ok (f ++ [(a.name, "")])
  | .value k repeatable =>
    if values.isEmpty then .error .invalidValue
    else if !repeatable && f.has a.name then .error .argumentConflict
    else
      match values.forM k.check with
      | .error e => .error e
      | .ok () => .ok (f ++ values.map (a.name, ·))

structure Scan where
  found : Found := []
  /-- An argument whose values are not taken yet. -/
  pending : Option (Argument × List String) := none
  /-- The pending argument is an option that still lacks its value. -/
  awaiting : Bool := false
  /-- Positional arguments that are full. -/
  filled : Nat := 0
  /-- `--` has been met. -/
  trailing : Bool := false

namespace Scan

/-- Takes the pending argument. -/
def settle (s : Scan) : Except UsageError Scan :=
  match s.pending with
  | none => .ok s
  | some (a, values) =>
    match a.take values s.found with
    | .error e => .error e
    | .ok f => .ok { s with found := f, pending := none, awaiting := false }

def take (s : Scan) (a : Argument) (values : List String) : Except UsageError Scan :=
  match s.settle with
  | .error e => .error e
  | .ok s =>
    match a.take values s.found with
    | .error e => .error e
    | .ok f => .ok { s with found := f, awaiting := false }

def option (s : Scan) (a : Argument) (attached : Option String) : Except UsageError Scan :=
  match a.kind, attached with
  | .value .., none =>
    match s.settle with
    | .error e => .error e
    | .ok s => .ok { s with pending := some (a, []), awaiting := true }
  | .value .., some v => s.take a [v]
  | _, none => s.take a []
  | _, some _ => .error .tooManyValues

/-- Takes the letters of a cluster such as `-ab`; the first that has a value takes the rest. -/
def cluster (g : Grammar) (s : Scan) : List Char → Except UsageError Scan
  | [] => .ok s
  | c :: cs =>
    match g.options.find? (·.short == some c) with
    | none => .error .unknownArgument
    | some a =>
      match a.kind with
      | .value .. =>
        match cs with
        | [] => s.option a none
        | '=' :: v => s.option a (some (String.ofList v))
        | v => s.option a (some (String.ofList v))
      | _ =>
        match s.option a none with
        | .error e => .error e
        | .ok s => cluster g s cs

/-- A name and the value behind the first `=`. -/
def splitLong (s : List Char) : String × Option String :=
  (String.ofList (s.takeWhile (· != '=')),
    match s.dropWhile (· != '=') with
    | [] => none
    | _ :: v => some (String.ofList v))

/-- What a word is where no argument fits it. -/
def refuse (g : Grammar) (s : Scan) (word : String) : UsageError :=
  if g.commands.isEmpty || (s.trailing && g.commands.contains word) then .unknownArgument
  else .invalidSubcommand

/-- Takes a word as the value of the waiting option or as a positional argument. -/
def word (g : Grammar) (s : Scan) (w : String) : Except UsageError Scan :=
  match s.awaiting && !s.trailing, s.pending with
  | true, some (a, values) => .ok { s with pending := some (a, values ++ [w]), awaiting := false }
  | _, _ =>
    match g.positionals[s.filled]? with
    | none => .error (s.refuse g w)
    | some a =>
      match a.kind, s.pending with
      | .value _ true, some (b, values) =>
        if a = b then .ok { s with pending := some (a, values ++ [w]) } else begin_ a s.filled
      | .value _ true, none => begin_ a s.filled
      | _, _ => begin_ a (s.filled + 1)
where
  /-- Makes `w` the first value of a positional argument. -/
  begin_ (a : Argument) (filled : Nat) : Except UsageError Scan :=
    match s.settle with
    | .error e => .error e
    | .ok s => .ok { s with pending := some (a, [w]), awaiting := false, filled }

def argument (g : Grammar) (s : Scan) (w : String) : Except UsageError Scan :=
  if s.trailing then s.word g w
  else
    match w.toList with
    | ['-', '-'] => .ok { s with trailing := true }
    | '-' :: '-' :: cs =>
      let (name, attached) := splitLong cs
      match g.options.find? (·.name == name) with
      | none => .error .unknownArgument
      | some a => s.option a attached
    | '-' :: c :: cs => s.cluster g (c :: cs)
    | _ => s.word g w

/-- Reads arguments up to the first command, if there is one; gives its name and what follows. -/
def run (g : Grammar) (s : Scan) : List String → Except UsageError (Scan × Option (String × List String))
  | [] => .ok (s, none)
  | w :: ws =>
    if !s.trailing && !s.awaiting && g.commands.contains w then .ok (s, some (w, ws))
    else
      match s.argument g w with
      | .error e => .error e
      | .ok s => run g s ws

end Scan

def Grammar.read (g : Grammar) (args : List String) : Except UsageError Found :=
  match Scan.run g {} args with
  | .error e => .error e
  | .ok (s, _) =>
    match s.settle with
    | .error e => .error e
    | .ok s => .ok s.found

end ModuleGraph.CommandLine
