import ProcEngine.Decimal.Text
import ProcEngine.Handle
import ProcEngine.Json.Basic
/-!
# Writing JSON

The shortest form of a value: no blanks, and escapes only where a string needs them. What is
unreadable is written as null.
-/

namespace ProcEngine.Json

def pad4 (s : String) : String := Decimal.zeros (4 - s.length) ++ s

def escaped (c : Char) : String :=
  match c with
  | '"' => "\\\""
  | '\\' => "\\\\"
  | '\n' => "\\n"
  | '\r' => "\\r"
  | '\t' => "\\t"
  | c => if c.toNat < 0x20 then "\\u" ++ pad4 (hexadecimal c.toNat) else c.toString

def quote (s : String) : String := "\"" ++ String.join (s.toList.map escaped) ++ "\""

def Number.text : Number → String
  | nat n => toString n.toNat
  | neg i => toString i.toInt
  | float x => Decimal.text .literal x

mutual

def render : Json → String
  | null | unreadable => "null"
  | bool b => if b then "true" else "false"
  | number n => n.text
  | string s => quote s
  | array items => "[" ++ ",".intercalate (renderItems items) ++ "]"
  | object members => "\x7b" ++ ",".intercalate (renderMembers members) ++ "\x7d"

def renderItems : List Json → List String
  | [] => []
  | j :: rest => render j :: renderItems rest

def renderMembers : List (Option String × Json) → List String
  | [] => []
  | (key, j) :: rest => (quote (key.getD "") ++ ":" ++ render j) :: renderMembers rest

end

end ProcEngine.Json
