import ModuleGraph.Program
import Std.Time.Format

/-!
# Entry point

Runs the program on the real file system, with the environment and the clock of the process.
-/

namespace ModuleGraph.Process

def fileErrorOfCode (code : UInt32) (text : String) : FileError :=
  match code with
  | 2 => .notFound
  | 17 => .alreadyExists
  | 20 => .notDirectory
  | 21 => .isDirectory
  | 36 => .nameTooLong
  | _ => .other text

def fileErrorOf (e : IO.Error) : FileError :=
  match e with
  | .noFileOrDirectory _ code _ => fileErrorOfCode code (toString e)
  | .alreadyExists _ code _ => fileErrorOfCode code (toString e)
  | .inappropriateType _ code _ => fileErrorOfCode code (toString e)
  | .invalidArgument _ code _ => fileErrorOfCode code (toString e)
  | _ => .other (toString e)

def attempt {α : Type} (action : IO α) : IO (Except FileError α) := do
  try
    return .ok (← action)
  catch e =>
    return .error (fileErrorOf e)

instance : Files IO where
  kind? path := do
    try
      let found ← IO.FS.realPath path
      return some (if ← found.isDir then .directory else .file)
    catch _ =>
      return none
  read path := attempt (IO.FS.readBinFile path)
  makeDirectory path := attempt (IO.FS.createDirAll path)
  append path content := attempt (IO.FS.withFile path .append (·.write content))

/-- A variable of the environment as it stands there, `name=value`. -/
def variableOf (entry : List Char) : String × String :=
  (String.ofList (entry.takeWhile (· != '=')), String.ofList ((entry.dropWhile (· != '=')).drop 1))

def environment : IO Settings.Environment := do
  let entries := Text.splitAt '\x00' (Text.decodeLossy (← IO.FS.readBinFile "/proc/self/environ")).toList
  return (entries.filter (· ≠ [])).map variableOf

def clock : IO String := do
  let now ← Std.Time.Timestamp.now
  return (Std.Time.DateTime.ofTimestamp now .UTC).format "uuuu-MM-dd'T'HH:mm:ss.SSSSSS'Z'"

end ModuleGraph.Process

open ModuleGraph in
def main (args : List String) : IO UInt32 := do
  let around : Program.Surroundings IO :=
    { directory := toString (← IO.currentDir)
      environment := ← Process.environment
      input := IO.FS.readBinFile "/dev/stdin"
      time := Process.clock }
  let outcome ← Program.run around args
  for line in outcome.errors do
    IO.eprintln line
  IO.print outcome.output
  return outcome.exitCode.toUInt32
