/-!
# Log lines

A line has a level, the target it is about, a message and fields. In the message, characters that
could steer a terminal are written by number, so that a text from a world cannot forge output; line
ends stay.
-/

namespace ProcEngine.Log

inductive Level
  | error
  | warn
  | info
  deriving DecidableEq

/-- The least verbosity at which a line of the level is shown. -/
def Level.verbosity : Level → Nat
  | error => 1
  | warn => 2
  | info => 3

def Level.label : Level → String
  | error => "ERROR"
  | warn => " WARN"
  | info => " INFO"

structure Line where
  level : Level
  target : String
  message : String
  fields : List (String × String) := []
  deriving DecidableEq

def twoDigits (n : Nat) : List Char := [Nat.digitChar (n / 16), Nat.digitChar (n % 16)]

def shown (c : Char) : List Char :=
  let n := c.toNat
  if n = 0x1b || n = 0x07 || n = 0x08 || n = 0x0c || n = 0x7f then '\\' :: 'x' :: twoDigits n
  else if 0x80 ≤ n && n ≤ 0x9f then '\\' :: 'u' :: '\x7b' :: twoDigits n ++ ['\x7d']
  else [c]

def Line.text (l : Line) : String :=
  l.level.label ++ " " ++ l.target ++ ": " ++ String.ofList (l.message.toList.flatMap shown) ++
    String.join (l.fields.map fun f => " " ++ f.1 ++ "=" ++ f.2)

example : (Line.mk .warn "a" "b\x1b\n" [("n", "1")]).text = " WARN a: b\\x1b\n n=1" := by
  decide +kernel

end ProcEngine.Log
