import ProcEngine.Config.Setting
import ProcEngine.Json.Reader
import ProcEngine.Text.Blank
/-!
# Reading INI files

Lines of `key = value` or `key: value`, in sections under `[name]`. A comment takes a line of its
own and must begin with it. A value goes to the end of its line, from the quotes on that it may
begin with; a key goes to its sign, even over line ends. A backslash escapes. All values are texts.
-/

namespace ProcEngine.Ini

open ProcEngine.Json (Input hexDigit?)

/-- Where a text stops that has no end of its own. -/
structure Stop where
  test : Char → Bool
  /-- Whether the end of the file is an end of it, too. -/
  atEnd : Bool := false

def Stop.lineEnd : Stop := ⟨fun c => c == '\n' || c == '\r', true⟩

def escaped : Char → List Char
  | '0' => ['\x00']
  | 'a' => ['\x07']
  | 'b' => ['\x08']
  | 't' => ['\t']
  | 'r' => ['\r']
  | 'n' => ['\n']
  | '\n' => []
  | c => [c]

/-- A character by its number in base sixteen, which may have a plus sign in front. -/
def numbered? (a b c d : Char) : Option Char := do
  let n ← Json.hex4? (if a = '+' then '0' else a) b c d
  guard (n < 0xd800 || 0xdfff < n)
  return Char.ofNat n

/-- Reads up to a stop, given what has been read in reverse. -/
def scanText (stop : Stop) (acc : List Char) : Input → Option (List Char × Input)
  | [] => if stop.atEnd then some (acc.reverse, []) else none
  | '\\' :: 'x' :: a :: b :: c :: d :: rest =>
    match numbered? a b c d with
    | some n => scanText stop (n :: acc) rest
    | none => none
  | '\\' :: c :: rest => if c = 'x' then none else scanText stop ((escaped c).reverse ++ acc) rest
  | c :: rest =>
    if stop.test c then some (acc.reverse, c :: rest)
    else if c = '\\' then none
    else scanText stop (c :: acc) rest

/-- Reads a value. What follows the closing quote on the line belongs to it. -/
def scanValue (cs : Input) : Option (List Char × Input) := do
  match cs.dropWhile fun c => c == '\t' || (Text.isBlank c && c != '\n' && c != '\r') with
  | [] => return ([], [])
  | c :: rest =>
    let (value, rest) ←
      if c = '"' || c = '\'' then do
        let (quoted, rest) ← scanText ⟨(· == c), false⟩ [] rest
        let (others, rest) ← scanText Stop.lineEnd [] (rest.drop 1)
        pure (quoted ++ others, rest)
      else scanText Stop.lineEnd [] (c :: rest)
    return (Text.trim value, rest)

/-- Skips blanks and tells whether a line begins after them. -/
def skipBlanks (atStart : Bool) : Input → Bool × Input
  | [] => (atStart, [])
  | c :: rest => if Text.isBlank c then skipBlanks (c == '\n') rest else (atStart, c :: rest)

/-- Reads the entries from `cs` on, `atStart` of a line or not, inside a section or before all of
them, where `key` waits for its value. A section is a table; its own entries do not matter. -/
def scanEntries : (fuel : Nat) → (atStart inSection : Bool) → (key : List Char) → Input →
    Option (List (String × Setting))
  | 0, _, _, _, _ => none
  | fuel + 1, atStart, inSection, key, cs =>
    match skipBlanks atStart cs with
    | (_, []) => some []
    | (atStart, c :: rest) =>
      if c = ';' || c = '#' then
        if atStart then scanEntries fuel true inSection key ((rest.dropWhile (· != '\n')).drop 1)
        else none
      else if c = '[' then do
        let (name, rest) ← scanText ⟨(· == ']'), false⟩ [] rest
        let entries ← scanEntries fuel false true key (rest.drop 1)
        return (String.ofList (Text.trim name), .table) :: entries
      else if c = '=' || c = ':' then do
        guard (!key.isEmpty)
        let (value, rest) ← scanValue rest
        let entries ← scanEntries fuel false inSection [] rest
        return if inSection then entries
          else (String.ofList key, .text (String.ofList value)) :: entries
      else do
        let (key, rest) ← scanText ⟨fun c => c == '=' || c == ':', false⟩ [] (c :: rest)
        scanEntries fuel false inSection (Text.trim key) rest

def parse (text : String) : Option (List (String × Setting)) :=
  let cs := text.toList
  scanEntries (cs.length + 1) true false [] cs

example :
    ((parse "a b = 'x' y\n; c\n[s]\nd:1").map fun entries => entries.map fun e =>
      (e.1, e.2.toText?)) =
    some [("a b", some "x y"), ("s", none)] := by decide +kernel

end ProcEngine.Ini
