import ProcEngine.Config.Setting
/-!
# Command-line arguments

`run WORLD` and `check WORLD`, with options before or after the world; `--config` may also stand
before the command. Arguments are taken one by one, so that of a request for help and a mistake the
first one counts. An option that needs a value takes it from the same argument, after an equals sign
or right after its letter, or from the next one, which must not look like an option. After `--`
nothing is an option. No option may be given twice to one command.
-/

namespace ProcEngine.CommandLine

inductive Command
  | run (world entry : String) (maxTicks : Option UInt64)
  | check (world : String)
  deriving DecidableEq

structure Options where
  config : Option String
  command : Command
  deriving DecidableEq

/-- Why there is nothing to do. -/
inductive Usage
  | help
  | wrong
  deriving DecidableEq

/-- What the options in an argument list may belong to. -/
inductive Verb
  | run
  | check
  deriving DecidableEq

inductive Flag
  | help
  | config
  | entry
  | maxTicks
  deriving DecidableEq

inductive Token
  | separator
  | long (name : List Char) (value : Option (List Char))
  /-- A dash and letters. -/
  | short (letter : Char) (rest : List Char)
  | plain (text : String)

def Token.of (arg : String) : Token :=
  match arg.toList with
  | ['-', '-'] => separator
  | '-' :: '-' :: cs =>
    long (cs.takeWhile (· != '='))
      (if cs.contains '=' then some ((cs.dropWhile (· != '=')).drop 1) else none)
  | '-' :: c :: rest => short c rest
  | _ => plain arg

def longFlags : Option Verb → List (String × Flag)
  | some .run => [("config", .config), ("entry", .entry), ("max-ticks", .maxTicks), ("help", .help)]
  | some .check | none => [("config", .config), ("help", .help)]

def shortFlags : Option Verb → List (Char × Flag)
  | some .run => [('e', .entry), ('h', .help)]
  | some .check | none => [('h', .help)]

/-- The value that follows an option's letter in the same argument. -/
def attached : List Char → Option String
  | [] => none
  | '=' :: value => some (String.ofList value)
  | value => some (String.ofList value)

/-- What an argument list has said so far. -/
structure Given where
  config : Option String := none
  entry : Option String := none
  maxTicks : Option UInt64 := none
  world : Option String := none

def once {α : Type} (given : Option α) (a : α) : Except Usage (Option α) :=
  match given with
  | none => .ok (some a)
  | some _ => .error .wrong

def Given.give (g : Given) (value : String) : Flag → Except Usage Given
  | .help => .error .help
  | .config => do return { g with config := ← once g.config value }
  | .entry => do return { g with entry := ← once g.entry value }
  | .maxTicks =>
    match Setting.word? value with
    | some n => do return { g with maxTicks := ← once g.maxTicks n }
    | none => .error .wrong

def Given.giveWorld (g : Given) (path : String) : Except Usage Given :=
  if path.isEmpty then .error .wrong
  else do return { g with world := ← once g.world path }

/-- The option that an argument gives, with the value that the argument has for it. A request for
help is met at once. -/
def option (verb : Option Verb) : Token → Except Usage (Flag × Option String)
  | .long name value =>
    match (longFlags verb).lookup (String.ofList name), value with
    | none, _ => .error .wrong
    | some .help, none => .error .help
    | some .help, some _ => .error .wrong
    | some f, value => .ok (f, value.map String.ofList)
  | .short letter rest =>
    match (shortFlags verb).lookup letter with
    | none => .error .wrong
    | some .help => .error .help
    | some f => .ok (f, attached rest)
  | .separator | .plain _ => .error .wrong

/-- An argument that can be the value of the option before it. -/
def isValue (arg : String) : Bool :=
  match Token.of arg with
  | .plain _ => true
  | _ => false

def scan (verb : Verb) (g : Given) : List String → Except Usage Given
  | [] => .ok g
  | arg :: rest =>
    match Token.of arg with
    | .plain path => do scan verb (← g.giveWorld path) rest
    | .separator => rest.foldlM Given.giveWorld g
    | token => do
      match ← option (some verb) token with
      | (f, some value) => scan verb (← g.give value f) rest
      | (f, none) =>
        match rest with
        | value :: rest => if isValue value then scan verb (← g.give value f) rest else throw .wrong
        | [] => throw .wrong

def Given.options (g : Given) (config : Option String) (verb : Verb) : Except Usage Options :=
  match g.world with
  | none => .error .wrong
  | some world =>
    .ok
      { config := g.config <|> config
        command := match verb with
          | .run => .run world (g.entry.getD "main") g.maxTicks
          | .check => .check world }

/-- `help` takes the name of at most one command. -/
def help : List String → Usage
  | [] => .help
  | [name] => if name = "run" || name = "check" || name = "help" then .help else .wrong
  | _ => .wrong

/-- Takes the arguments up to the command. -/
def scanCommand (g : Given) : List String → Except Usage Options
  | [] => .error .wrong
  | arg :: rest =>
    match Token.of arg with
    | .plain "run" => do (← scan .run {} rest).options g.config .run
    | .plain "check" => do (← scan .check {} rest).options g.config .check
    | .plain "help" => .error (help rest)
    | token => do
      match ← option none token with
      | (f, some value) => scanCommand (← g.give value f) rest
      | (f, none) =>
        match rest with
        | value :: rest =>
          if isValue value then scanCommand (← g.give value f) rest else throw .wrong
        | [] => throw .wrong

def Options.parse (args : List String) : Except Usage Options := scanCommand {} args

example : (Options.parse ["--config", "c", "run", "-eboot", "w"]).toOption =
    some ⟨some "c", .run "w" "boot" none⟩ := by decide +kernel

end ProcEngine.CommandLine
