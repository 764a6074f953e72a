import ProcEngine.Config.Environment
import ProcEngine.Config.Ini
import ProcEngine.Config.Json5
import ProcEngine.Config.Ron
import ProcEngine.Config.Toml
import ProcEngine.Config.Yaml.Document
import ProcEngine.File
/-!
# The configuration

What a run can be told besides its world. Settings come from a file and from environment variables,
which win; what neither names has its default. The file is either the one asked for, which must be
there, or one called `dream`, with any known extension, if it is there. The extension says how a
file is written.
-/

namespace ProcEngine

structure Config where
  /-- How many activations a context may hold. -/
  maxDepth : UInt64 := 256
  /-- How long a tick takes, in milliseconds. -/
  tickLength : UInt64 := 50
  /-- Which log lines are shown if the environment does not say. -/
  logFilter : String := "info"
  /-- After how many ticks to stop. -/
  maxTicks : Option UInt64 := none
  deriving DecidableEq

inductive ConfigError
  | unreadable
  | invalid
  | noDepth
  deriving DecidableEq

def ConfigError.message : ConfigError → String
  | unreadable => "Failed to read configuration"
  | invalid => "Invalid configuration"
  | noDepth => "max_stack_depth must be at least 1"

namespace Config

def fileName : String := "dream"

/-- What the names of environment variables start with that are settings. -/
def variableMark : String := "dream_"

/-! ### Files -/

inductive Format
  | toml
  | json
  | yaml
  | ini
  | ron
  | json5

def extensions : List (String × Format) :=
  [("toml", .toml), ("json", .json), ("yaml", .yaml), ("yml", .yaml), ("ini", .ini), ("ron", .ron),
    ("json5", .json5)]

/-- What follows the last point of a file's name, unless it is the first character. -/
def extension? (path : String) : Option String :=
  let name := (path.toList.reverse.takeWhile (· != '/'))
  match name.dropWhile (· != '.') with
  | [] | [_] => none
  | _ => some (String.ofList (name.takeWhile (· != '.')).reverse)

def Format.ofPath? (path : String) : Option Format := do extensions.lookup (← extension? path)

/-- What extensions are added to. Blank steps at the end of a path do not count; a path without
others, or with a step up at its end, has no file's name. -/
def stem? (path : String) : Option String :=
  match (Text.pieces '/' path).reverse.dropWhile fun step => step == "" || step == "." with
  | [] | ".." :: _ => none
  | steps => some ("/".intercalate steps.reverse)

def settingOfJson : Json → Setting
  | .null | .unreadable => .null
  | .bool b => .bool b
  | .string s => .text s
  | .array _ => .list
  | .object _ => .table
  | j@(.number _) =>
    match j.int?, j.float? with
    | some i, _ => .int i
    | none, some x => .float x
    | none, none => .null

def settingsOfJson? (text : String) : Option (List (String × Setting)) := do
  let j ← Json.parse text
  guard (j.isReadable Json.maxDepth)
  return (← j.members?).map fun (key, j) => (key, settingOfJson j)

def Format.parse : Format → String → Option (List (String × Setting))
  | toml, text => Toml.parse text
  | json, text => settingsOfJson? text
  | yaml, text => Yaml.parse text
  | ini, text => Ini.parse text
  | ron, text => Ron.parse text
  | json5, text => Json5.parse text

variable {m : Type → Type} [Monad m] (read : String → m (Except FileError String))

def findAmong : List (Format × String) → m (Option (Format × String))
  | [] => return none
  | (f, path) :: rest => do
    match ← read path with
    | .ok text => return some (f, text)
    | .error _ => findAmong rest

/-- The file that a path stands for: the file of that very name, which must have the extension of a
format, or one with an extension added. -/
def find (path : String) : m (Option (Format × String)) := do
  match ← read path with
  | .ok text => return (Format.ofPath? path).map fun f => (f, text)
  | .error _ =>
    match stem? path with
    | some stem => findAmong read (extensions.map fun (e, f) => (f, s!"{stem}.{e}"))
    | none => return none

/-- The settings of the file asked for, or of the one that may be there. -/
def fileSettings (path : Option String) : m (Except ConfigError (List (String × Setting))) := do
  match ← find read (path.getD fileName) with
  | some (f, text) =>
    match f.parse text with
    | some settings => return .ok (settings.map fun (key, s) => place key s)
    | none => return .error .unreadable
  | none => return if path.isSome then .error .unreadable else .ok []

/-! ### Settings -/

/-- What a setting stands for, or the default if there is none. -/
def settingD {α : Type} (settings : List (String × Setting)) (name : String) (default : α)
    (read : Setting → Option α) :
    Except ConfigError α :=
  match settings.lookup name with
  | none => .ok default
  | some s =>
    match read s with
    | some a => .ok a
    | none => .error .invalid

def optional {α : Type} (read : Setting → Option α) : Setting → Option (Option α)
  | .null => some none
  | s => (read s).map some

/-- The configuration that settings make. Of two with one name the later one counts. -/
def ofSettings (settings : List (String × Setting)) : Except ConfigError Config := do
  let settings := settings.reverse
  let maxDepth ← settingD settings "max_stack_depth" 256 Setting.toWord?
  let tickLength ← settingD settings "tick_ms" 50 Setting.toWord?
  let logFilter ← settingD settings "log_filter" "info" Setting.toText?
  let maxTicks ← settingD settings "max_ticks" none (optional Setting.toWord?)
  if maxDepth = 0 then throw .noDepth
  return { maxDepth, tickLength, logFilter, maxTicks }

def load (env : Environment) (path : Option String) : m (Except ConfigError Config) := do
  match ← fileSettings read path with
  | .error e => return .error e
  | .ok settings => return ofSettings (settings ++ env.settings variableMark)

end Config

end ProcEngine
