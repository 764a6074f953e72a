import ProcEngine.Config.Content
import ProcEngine.Json.Reader
import ProcEngine.Text.Blank
import ProcEngine.Text.Mark
import ProcEngine.Text.Word
/-!
# Reading JSON5 files

JSON with comments, blanks of every kind, keys without quotes, strings in single quotes and over
several lines, numbers in more forms, and a comma after the last item or member.
-/

namespace ProcEngine.Json5

open ProcEngine.Json (Input hexDigit?)
open ProcEngine.Config (Content)

/-! ### Blanks and comments -/

def isLineEnd (c : Char) : Bool := c == '\n' || c == '\r' || c == '\u2028' || c == '\u2029'

def isBlank (c : Char) : Bool := (Text.isBlank c && c != '\u0085') || c == '\ufeff'

def afterComment? : Input → Option Input
  | '*' :: '/' :: rest => some rest
  | _ :: rest => afterComment? rest
  | [] => none

/-- Skips blanks and comments; a comment without an end is not one. -/
def skip : (fuel : Nat) → Input → Input
  | 0, cs => cs
  | fuel + 1, cs =>
    match cs.dropWhile isBlank with
    | '/' :: '/' :: rest => skip fuel (rest.dropWhile fun c => !isLineEnd c)
    | '/' :: '*' :: rest =>
      match afterComment? rest with
      | some rest => skip fuel rest
      | none => '/' :: '*' :: rest
    | cs => cs

def skipBlanks (cs : Input) : Input := skip (cs.length + 1) cs

/-! ### Strings and keys -/

def escape? : Char → Option Char
  | 'b' => some '\x08'
  | 'f' => some '\x0c'
  | 'n' => some '\n'
  | 'r' => some '\r'
  | 't' => some '\t'
  | 'v' => some '\x0b'
  | '0' => some '\x00'
  | c => if ('1' ≤ c && c ≤ '9') || c == 'x' || c == 'u' then none else some c

def scanString (quote : Char) (s : Json.Scanned) : Input → Option (String × Input)
  | [] => none
  | '\\' :: '\r' :: '\n' :: rest => scanString quote s rest
  | '\\' :: 'u' :: a :: b :: c :: d :: rest =>
    match Json.hex4? a b c d with
    | some n => scanString quote (s.unit n) rest
    | none => none
  | '\\' :: 'x' :: a :: b :: rest =>
    match Json.hex4? '0' '0' a b with
    | some n => scanString quote (s.unit n) rest
    | none => none
  | '\\' :: c :: rest =>
    if isLineEnd c then scanString quote s rest
    else
      match escape? c with
      | some e => scanString quote (s.char e) rest
      | none => none
  | c :: rest =>
    if c = quote then s.value.map fun s => (s, rest)
    else if isLineEnd c || c = '\\' then none
    else scanString quote (s.char c) rest

def isKeyStart (c : Char) : Bool := c == '$' || c == '_' || Text.isLetter c

def isKeyChar (c : Char) : Bool :=
  isKeyStart c || Text.isDecimalDigit c || Text.isMark c || c == '\u200c' || c == '\u200d'

/-- Reads the rest of a key without quotes, in which characters may be given by number. -/
def scanName (s : Json.Scanned) : Input → Option (String × Input)
  | '\\' :: 'u' :: a :: b :: c :: d :: rest =>
    match Json.hex4? a b c d with
    | some n => scanName (s.unit n) rest
    | none => none
  | c :: rest =>
    if isKeyChar c then scanName (s.char c) rest else s.value.map fun s => (s, c :: rest)
  | [] => s.value.map fun s => (s, [])

def scanKey : Input → Option (String × Input)
  | '"' :: rest => scanString '"' {} rest
  | '\'' :: rest => scanString '\'' {} rest
  | c :: rest => if isKeyStart c || c = '\\' then scanName {} (c :: rest) else none
  | [] => none

/-! ### Numbers -/

def isHexDigit (c : Char) : Bool := (hexDigit? c).isSome

/-- An exponent and what follows it; one without digits is none. -/
def exponent (cs : Input) : List Char × Input :=
  match cs with
  | e :: rest =>
    if e = 'e' || e = 'E' then
      let (_, digits) := Setting.signed rest
      let sign := rest.take (rest.length - digits.length)
      match digits.takeWhile Setting.isDigit with
      | [] => ([], cs)
      | ds => (e :: sign ++ ds, digits.dropWhile Setting.isDigit)
    else ([], cs)
  | [] => ([], [])

/-- The digits of a decimal with its point and its exponent. -/
def decimal? (cs : Input) : Option (List Char × Input) :=
  let whole := match cs with
    | '0' :: _ => ['0']
    | cs => cs.takeWhile Setting.isDigit
  match cs.drop whole.length with
  | '.' :: rest =>
    let fraction := rest.takeWhile Setting.isDigit
    if whole.isEmpty && fraction.isEmpty then none
    else
      let (e, rest) := exponent (rest.dropWhile Setting.isDigit)
      some (whole ++ '.' :: fraction ++ e, rest)
  | rest =>
    if whole.isEmpty then none
    else
      let (e, rest) := exponent rest
      some (whole ++ e, rest)

def finite? (x : Float) : Option Setting := if x.isFinite then some (.float x) else none

/-- A decimal without a point and an exponent is an integer. -/
def numberOf? (cs : List Char) : Option Setting :=
  if cs.any fun c => c == '.' || c == 'e' || c == 'E' then
    (Setting.float? (String.ofList cs)).bind finite?
  else (Setting.int? (String.ofList cs)).map .int

/-- A number in base sixteen, which has no sign and is short. -/
def hexadecimal? (digits : List Char) : Option Setting :=
  let n := digits.foldl (fun n c => n * 16 + (hexDigit? c).getD 0) 0
  if n < 0x100000000 then some (.int (Int64.ofInt n)) else none

def scanNumber (cs : Input) : Option (Setting × Input) :=
  let (negative, rest) := Setting.signed cs
  let sign := cs.take (cs.length - rest.length)
  let word (w : String) : Option Input :=
    if w.toList.isPrefixOf rest then some (rest.drop w.length) else none
  let hex : Option (List Char × Input) := match rest with
    | '0' :: x :: rest =>
      let digits := rest.takeWhile isHexDigit
      if (x = 'x' || x = 'X') && !digits.isEmpty then some (digits, rest.drop digits.length)
      else none
    | _ => none
  match hex, decimal? rest, word "Infinity", word "NaN" with
  | some (digits, rest), _, _, _ =>
    if sign.isEmpty then (hexadecimal? digits).map fun s => (s, rest) else none
  | none, some (digits, rest), _, _ => (numberOf? (sign ++ digits)).map fun s => (s, rest)
  | none, none, some rest, _ =>
    if sign = ['+'] then none
    else some (.float (if negative then -(1.0 / 0.0) else 1.0 / 0.0), rest)
  | none, none, none, some rest => if sign = ['+'] then none else some (.float (0.0 / 0.0), rest)
  | none, none, none, none => none

/-! ### Values -/

def scanWord (word : String) (s : Setting) (cs : Input) : Option (Content × Input) :=
  if word.toList.isPrefixOf cs then some (.scalar s, cs.drop word.length) else none

mutual

/-- Reads a value that starts at the first character. -/
def scanValue : (fuel : Nat) → Input → Option (Content × Input)
  | 0, _ => none
  | fuel + 1, cs =>
    match cs with
    | '"' :: rest => (scanString '"' {} rest).map fun (s, rest) => (.scalar (.text s), rest)
    | '\'' :: rest => (scanString '\'' {} rest).map fun (s, rest) => (.scalar (.text s), rest)
    | '[' :: rest =>
      match skipBlanks rest with
      | ']' :: rest => some (.list, rest)
      | rest => (scanItems fuel rest).map fun rest => (.list, rest)
    | '\x7b' :: rest =>
      match skipBlanks rest with
      | '\x7d' :: rest => some (.table [], rest)
      | rest => (scanMembers fuel rest).map fun (entries, rest) => (.table entries, rest)
    | 'n' :: _ => scanWord "null" .null cs
    | 't' :: _ => scanWord "true" (.bool true) cs
    | 'f' :: _ => scanWord "false" (.bool false) cs
    | cs => (scanNumber cs).map fun (s, rest) => (.scalar s, rest)

/-- What follows the items of an array that has at least one, and its closing bracket. -/
def scanItems : (fuel : Nat) → Input → Option Input
  | 0, _ => none
  | fuel + 1, cs => do
    let (_, rest) ← scanValue fuel cs
    match skipBlanks rest with
    | ',' :: rest =>
      match skipBlanks rest with
      | ']' :: rest => return rest
      | rest => scanItems fuel rest
    | ']' :: rest => return rest
    | _ => none

def scanMembers : (fuel : Nat) → Input → Option (List (String × Setting) × Input)
  | 0, _ => none
  | fuel + 1, cs => do
    let (key, rest) ← scanKey cs
    let ':' :: rest := skipBlanks rest | none
    let (value, rest) ← scanValue fuel (skipBlanks rest)
    match skipBlanks rest with
    | ',' :: rest =>
      match skipBlanks rest with
      | '\x7d' :: rest => return ([(key, value.setting)], rest)
      | rest => do
        let (entries, rest) ← scanMembers fuel rest
        return ((key, value.setting) :: entries, rest)
    | '\x7d' :: rest => return ([(key, value.setting)], rest)
    | _ => none

end

def parse (text : String) : Option (List (String × Setting)) := do
  let cs := text.toList
  let (content, rest) ← scanValue (2 * cs.length + 2) (skipBlanks cs)
  guard (skipBlanks rest).isEmpty
  content.entries?

def keysOf (text : String) : Option (List String) :=
  (parse text).map fun entries => entries.map fun e => e.1

example : keysOf "// c\n\x7ba: +1, 'b': \"x\\\ny\", c: [.5, ],\x7d" = some ["a", "b", "c"] := by
  decide +kernel
example : keysOf "\x7ba: +0x1\x7d" = none ∧ keysOf "[]" = none := by decide +kernel

end ProcEngine.Json5
