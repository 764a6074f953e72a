import ProcEngine.Config.Setting
/-!
# Keys

Sources give values to keys. A key is the name of a setting in letters of either case, or a path
into a setting: its name, then steps `.name` into tables and `[0]` into lists. A path makes its
setting a table or a list, whatever else that was. What does not read as a path is a name as it
stands.
-/

namespace ProcEngine.Config

/-- The lower case of a character, as far as that is an ASCII letter; no name of a setting has
others. Only one letter outside ASCII, the Kelvin sign, has such a lower case. -/
def lowerChar (c : Char) : Char := if c = '\u212a' then 'k' else c.toLower

def lowerKey (key : String) : String := String.ofList (key.toList.map lowerChar)

def isStepChar (c : Char) : Bool := (c.isAlphanum || c == ' ' || c == '_' || c == '-')

def stepName? (cs : List Char) : Option (List Char × List Char) :=
  let name := cs.takeWhile isStepChar
  if name.isEmpty then none else some (name, cs.dropWhile isStepChar)

/-- Blanks, as far as a position between brackets may have them around it. -/
def skipBlanks (cs : List Char) : List Char := cs.dropWhile fun c => c == ' ' || c == '\t'

/-- What follows a position and its closing bracket. A position may count from the end. -/
def afterPosition? (cs : List Char) : Option (List Char) := do
  let cs := skipBlanks cs
  let (negative, digits) := match cs with
    | '-' :: rest => (true, rest)
    | cs => (false, cs)
  let n ← Setting.digitsOf? (digits.takeWhile Setting.isDigit)
  guard (n < UInt64.size / 2 || (negative && n = UInt64.size / 2))
  match skipBlanks (digits.dropWhile Setting.isDigit) with
  | ']' :: rest => some rest
  | _ => none

def isSteps : (fuel : Nat) → List Char → Bool
  | 0, _ => false
  | _ + 1, [] => true
  | fuel + 1, '.' :: cs => (stepName? cs).any fun (_, rest) => isSteps fuel rest
  | fuel + 1, '[' :: cs => (afterPosition? cs).any fun rest => isSteps fuel rest
  | _ + 1, _ :: _ => false

/-- The name of the setting that a key gives a value to, and what that setting becomes. The name in
front of steps is taken as it is written. -/
def place (key : String) (s : Setting) : String × Setting :=
  match stepName? key.toList with
  | some (name, step :: rest) =>
    if isSteps (rest.length + 2) (step :: rest) then
      (String.ofList name, if step = '.' then .table else .list)
    else (lowerKey key, s)
  | _ => (lowerKey key, s)

example : (place "Tick_MS" .null).1 = "tick_ms" ∧ (place "max.x[ 0 ]" .null).1 = "max" ∧
    (place "max.[0]" .null).1 = "max.[0]" := by decide +kernel

end ProcEngine.Config
