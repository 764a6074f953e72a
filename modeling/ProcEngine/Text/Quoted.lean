import ProcEngine.Text.Escaped
import ProcEngine.Handle
/-!
# Quoted text

A text between double quotes, in which the quote, the backslash and the characters that would not
show are escaped: the common ones by letter, the others by code point.
-/

namespace ProcEngine.Text

def quotedChar (c : Char) : String :=
  match c with
  | '"' => "\\\""
  | '\\' => "\\\\"
  | '\n' => "\\n"
  | '\r' => "\\r"
  | '\t' => "\\t"
  | '\x00' => "\\0"
  | c => if isEscaped c then "\\u\x7b" ++ hexadecimal c.toNat ++ "\x7d" else c.toString

def quoted (s : String) : String := "\"" ++ String.join (s.toList.map quotedChar) ++ "\""

def bracketed (items : List String) : String := "[" ++ ", ".intercalate items ++ "]"

example : quoted "a\"\x1b" = "\"a\\\"\\u\x7b1b\x7d\"" := by decide +kernel

end ProcEngine.Text
