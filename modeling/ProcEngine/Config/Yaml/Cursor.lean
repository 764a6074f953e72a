import ProcEngine.Text.Blank
/-!
# Places in a YAML text

What is left of the text and where on its line it begins: in YAML, columns decide what belongs to
what.
-/

namespace ProcEngine.Yaml

structure Cursor where
  rest : List Char
  line : Nat := 0
  column : Nat := 0
  offset : Nat := 0
  /-- Whether the line has nothing but blanks before this place. -/
  isFresh : Bool := true
  deriving DecidableEq

def isBreak (c : Char) : Bool := c == '\n' || c == '\r'

def isBlank (c : Char) : Bool := c == ' ' || c == '\t'

/-- The characters with a meaning in collections that are written between brackets. -/
def isFlow (c : Char) : Bool := c == ',' || c == '[' || c == ']' || c == '\x7b' || c == '\x7d'

namespace Cursor

def peek (c : Cursor) (n : Nat) : Option Char := c.rest[n]?

def head (c : Cursor) : Option Char := c.rest.head?

def isAtEnd (c : Cursor) : Bool := c.rest.isEmpty

def isAtBreak (c : Cursor) : Bool := c.head.all isBreak

/-- Whether a word could end `n` places ahead. -/
def endsAt (c : Cursor) (n : Nat) : Bool := (c.peek n).all fun ch => isBlank ch || isBreak ch

/-- Passes blanks. -/
def blanks (c : Cursor) (n : Nat) : Cursor :=
  { c with rest := c.rest.drop n, column := c.column + n, offset := c.offset + n }

/-- Passes other characters. -/
def chars (c : Cursor) (n : Nat) : Cursor := { c.blanks n with isFresh := false }

def nextLine (c : Cursor) : Cursor :=
  let n := match c.rest with
    | '\r' :: '\n' :: _ => 2
    | _ => 1
  { rest := c.rest.drop n, line := c.line + 1, column := 0, offset := c.offset + n,
    isFresh := true }

/-- Passes everything up to the end of the line. -/
def comment (c : Cursor) : Cursor := c.chars (c.rest.takeWhile fun ch => !isBreak ch).length

/-- Whether a line begins here with three of the characters that mark the start or the end of a
document. -/
def isAtMark (mark : Char) (c : Cursor) : Bool :=
  c.column = 0 && (c.rest.take 3 == List.replicate 3 mark) && c.endsAt 3

def isAtDocument (c : Cursor) : Bool := c.isAtMark '-' || c.isAtMark '.'

/-- Where blanks and a comment lead that follow something on a line, with what blanks there were. A
comment must have a blank before it. -/
structure Gap where
  cursor : Cursor
  tabs : Bool
  spaces : Bool

def gap? (withTabs : Bool) (c : Cursor) : Option Gap :=
  let blanks := c.rest.takeWhile fun ch => ch == ' ' || (withTabs && ch == '\t')
  let after := c.blanks blanks.length
  if after.head = some '#' then
    if blanks.isEmpty then none else some ⟨after.comment, blanks.contains '\t', blanks.contains ' '⟩
  else some ⟨after, blanks.contains '\t', blanks.contains ' '⟩

end Cursor

end ProcEngine.Yaml
