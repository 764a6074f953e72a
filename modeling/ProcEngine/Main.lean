import ProcEngine.CommandLine.Session
/-!
# The program

Runs the command line over real files and a real clock. Log lines are stamped with the seconds since
the start.
-/

namespace ProcEngine.CommandLine

def fileError : IO.Error → FileError
  | .noFileOrDirectory .. => .notFound
  | .permissionDenied .. => .denied
  | .inappropriateType .. => .isADirectory
  | _ => .notFound

def readText (path : String) : IO (Except FileError String) := do
  try
    match String.fromUTF8? (← IO.FS.readBinFile path) with
    | some text => return .ok text
    | none => return .error .notText
  catch e => return .error (fileError e)

/-- Seconds with three places. -/
def stamp (milliseconds : Nat) : String :=
  let places := toString (1000 + milliseconds % 1000)
  s!"{milliseconds / 1000}.{places.drop 1}s"

def terminal (start : Nat) : Terminal IO where
  read := readText
  print line := IO.println line
  log line := do IO.println s!"{stamp ((← IO.monoMsNow) - start)} {line.text}"
  complain line := IO.eprintln line
  pause length := IO.sleep length.toUInt32

/-- The variables that can matter. -/
def knownVariables : List String :=
  ["RUST_LOG", "DREAM_MAX_STACK_DEPTH", "DREAM_TICK_MS", "DREAM_LOG_FILTER", "DREAM_MAX_TICKS"]

def processEnvironment : IO Environment := do
  let mut env : Environment := {}
  for name in knownVariables do
    if let some value ← IO.getEnv name then
      env := env.add name value
  return env

def usageText : String :=
  "Usage: dream [--config <CONFIG>] run <WORLD> [--entry <ENTRY>] [--max-ticks <MAX_TICKS>]\n" ++
  "       dream [--config <CONFIG>] check <WORLD>"

/-- More steps than any run takes. -/
def enough : Nat := 1000000000000000000

end ProcEngine.CommandLine

open ProcEngine.CommandLine in
def main (args : List String) : IO UInt32 := do
  match Options.parse args with
  | .error .help => do
    IO.println usageText
    return 0
  | .error .wrong => do
    IO.eprintln usageText
    return 2
  | .ok options => do
    let start ← IO.monoMsNow
    run (terminal start) enough (← processEnvironment) options
