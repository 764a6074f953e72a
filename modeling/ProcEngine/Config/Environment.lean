import ProcEngine.Config.Key
import ProcEngine.Text.Blank
import ProcEngine.Text.Word
/-!
# The environment and its file

Environment variables come from outside, and from a file of `NAME=value` lines for the names that
are not set yet. A line of the file that cannot be read ends the reading; what stood before it
counts.

A value is bare or quoted, or has parts of either kind. Between single quotes everything stands for
itself. Elsewhere a backslash escapes, and `$NAME` or `${NAME}` stands for the value of a variable.
A quoted part may go on over a line end.
-/

namespace ProcEngine

/-- Variables and their values, in the order in which they were set. -/
structure Environment where
  vars : List (String × String) := []

namespace Environment

def get? (env : Environment) (name : String) : Option String := env.vars.lookup name

/-- Sets a variable that is not set yet. -/
def add (env : Environment) (name value : String) : Environment :=
  if (env.get? name).isSome then env else ⟨env.vars ++ [(name, value)]⟩

end Environment

namespace DotEnv

/-! ### Logical lines -/

/-- Where in a line a character stands, as far as it matters for where the line ends. -/
inductive Span
  | plain
  | blank
  | escape
  | double
  | doubleEscape
  | single
  | singleEscape
  deriving DecidableEq

def Span.open (otherwise : Span) : Char → Span
  | '\\' => escape
  | '"' => double
  | '\'' => single
  | _ => otherwise

def Span.next (c : Char) : Span → Span
  | plain => if Text.isBlank c && c != '\n' && c != '\r' then blank else Span.open plain c
  | blank => Span.open plain c
  | escape => plain
  | double => if c = '\\' then doubleEscape else if c = '"' then plain else double
  | doubleEscape => double
  | single => if c = '\\' then singleEscape else if c = '\'' then plain else single
  | singleEscape => single

def afterLine (cs : List Char) : List Char := (cs.dropWhile (· != '\n')).drop 1

def dropReturn : List Char → List Char
  | '\r' :: rest => rest
  | cs => cs

/-- Reads up to the end of a line outside quotes, or to a comment, given what has been read in
reverse. `none` if the text ends before the line does; blanks at the end of the text are taken for
an unfinished line. -/
def lineFrom (acc : List Char) : Span → List Char → Option (List Char × List Char)
  | s, [] => if s = .plain then some (acc.reverse, []) else none
  | s, c :: rest =>
    if s = .blank && c = '#' then some (acc.reverse, afterLine rest)
    else if c = '\n' && s.next c = .plain then some ((dropReturn acc).reverse, rest)
    else lineFrom (c :: acc) (s.next c) rest

/-! ### Values -/

inductive Quoting
  | bare
  | single
  | double
  deriving DecidableEq

/-- What the next character of a value belongs to. Names are held in reverse. -/
inductive Part
  | text
  | escape
  | name (read : List Char)
  | bracedName (read : List Char)
  /-- Past the value: only blanks and a comment may follow. -/
  | ending

def escape? : Char → Option Char
  | 'n' => some '\n'
  | c => if c = '\\' || c = '\'' || c = '"' || c = '$' || c = ' ' then some c else none

/-- Puts the value of a variable, empty if it has none, before what has been read. -/
def substitute (env : Environment) (name acc : List Char) : List Char :=
  ((env.get? (String.ofList name.reverse)).getD "").toList.reverse ++ acc

/-- Reads a value, given what has been read of it in reverse. A name without braces is of letters
and digits; the character after it stands for itself, whatever it is. -/
def valueFrom (env : Environment) (acc : List Char) : Quoting → Part → List Char →
    Option (List Char)
  | q, part, [] =>
    match q, part with
    | .bare, .name n => some (substitute env n acc).reverse
    | .bare, .bracedName _ => none
    | .bare, _ => some acc.reverse
    | _, _ => none
  | q, .ending, c :: rest =>
    if c = ' ' || c = '\t' then valueFrom env acc q .ending rest
    else if c = '#' then some acc.reverse
    else none
  | q, .escape, c :: rest =>
    match escape? c with
    | some e => valueFrom env (e :: acc) q .text rest
    | none => none
  | q, .name n, c :: rest =>
    if Text.isWordChar c then valueFrom env acc q (.name (c :: n)) rest
    else if c = '\x7b' && n.isEmpty then valueFrom env acc q (.bracedName []) rest
    else if c = '$' then valueFrom env (substitute env n acc) q (.name []) rest
    else valueFrom env (c :: substitute env n acc) q .text rest
  | q, .bracedName n, c :: rest =>
    if c = '\x7d' then valueFrom env (substitute env n acc) q .text rest
    else valueFrom env acc q (.bracedName (c :: n)) rest
  | .single, .text, c :: rest =>
    if c = '\'' then valueFrom env acc .bare .text rest
    else valueFrom env (c :: acc) .single .text rest
  | .double, .text, c :: rest =>
    if c = '$' then valueFrom env acc .double (.name []) rest
    else if c = '"' then valueFrom env acc .bare .text rest
    else if c = '\\' then valueFrom env acc .double .escape rest
    else valueFrom env (c :: acc) .double .text rest
  | .bare, .text, c :: rest =>
    if c = '$' then valueFrom env acc .bare (.name []) rest
    else if c = '\'' then valueFrom env acc .single .text rest
    else if c = '"' then valueFrom env acc .double .text rest
    else if c = '\\' then valueFrom env acc .bare .escape rest
    else if c = ' ' || c = '\t' then valueFrom env acc .bare .ending rest
    else valueFrom env (c :: acc) .bare .text rest

/-! ### Entries -/

def isNameStart (c : Char) : Bool := c.isAlpha || c == '_'

def isNameChar (c : Char) : Bool := c.isAlphanum || c == '_' || c == '.'

def name? : List Char → Option (List Char × List Char)
  | [] => none
  | c :: rest =>
    if isNameStart c then
      some (c :: rest.takeWhile isNameChar, Text.trimLeft (rest.dropWhile isNameChar)) else none

def afterEquals? : List Char → Option (List Char)
  | '=' :: rest => some rest
  | _ => none

/-- The name of an entry, and what follows its equals sign. The word `export` may stand in front. -/
def key? (cs : List Char) : Option (List Char × List Char) := do
  let (name, rest) ← name? cs
  match afterEquals? rest with
  | some rest => return (name, rest)
  | none => do
    guard (name = "export".toList)
    let (name, rest) ← name? rest
    return (name, ← afterEquals? rest)

/-- The entry of a line: `some none` if there is nothing on it, `none` if it cannot be read. Blanks
around the line do not count, not even after a backslash. -/
def entry? (env : Environment) (line : List Char) : Option (Option (String × String)) :=
  match Text.trim line with
  | [] | '#' :: _ => some none
  | cs => do
    let (name, rest) ← key? cs
    let value ← match Text.trimLeft rest with
      | [] | '#' :: _ => some []
      | cs => valueFrom env [] .bare .text cs
    return some (String.ofList name, String.ofList value)

/-- Sets what the entries say, one by one. A variable that is set already is left alone. -/
def loadFrom (env : Environment) : (fuel : Nat) → List Char → Environment
  | 0, _ => env
  | _ + 1, [] => env
  | fuel + 1, cs =>
    if (Text.trimLeft (cs.takeWhile (· != '\n'))).head? = some '#' then
      loadFrom env fuel (afterLine cs)
    else
      match lineFrom [] .plain cs with
      | none => env
      | some (line, rest) =>
        match entry? env line with
        | none => env
        | some none => loadFrom env fuel rest
        | some (some (name, value)) => loadFrom (env.add name value) fuel rest

end DotEnv

namespace Environment

def load (env : Environment) (text : String) : Environment :=
  let cs := Text.withoutMark text.toList
  DotEnv.loadFrom env (cs.length + 1) cs

/-- The settings that variables give whose names start with `mark`, in letters of either case. -/
def settings (env : Environment) (mark : String) : List (String × Setting) :=
  env.vars.filterMap fun (name, value) =>
    let key := Config.lowerKey name
    if key.startsWith mark then
      some (Config.place (key.drop mark.length).toString (Setting.ofText value)) else none

example : (Environment.load {} "A = 'x' # y\nexport B=\"$A.\\n\"\nA=2").vars =
    [("A", "x"), ("B", "x.\n")] := by
  decide +kernel

end Environment

end ProcEngine
