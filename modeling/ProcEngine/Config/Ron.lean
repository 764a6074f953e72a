import ProcEngine.Config.Content
import ProcEngine.Json.Reader
import ProcEngine.Text.Blank
/-!
# Reading RON files

Object notation with named and unnamed structs: `Name(a: 1)` and `(a: 1)` are tables like
`{"a": 1}`, `(1, 2)` is a list like `[1, 2]`, and `Some` wraps a value. A name alone stands for
nothing. Line comments and nested block comments may stand between any two parts, and a comma after
the last one.
-/

namespace ProcEngine.Ron

open ProcEngine.Json (Input hexDigit?)
open ProcEngine.Config (Content)

/-! ### Blanks and comments -/

def isBlank (c : Char) : Bool := c == ' ' || c == '\t' || c == '\n' || c == '\r'

/-- What follows the end of a block comment in which `depth` more are open. -/
def afterComment? (depth : Nat) : Input → Option Input
  | '*' :: '/' :: rest =>
    match depth with
    | 0 => some rest
    | depth + 1 => afterComment? depth rest
  | '/' :: '*' :: rest => afterComment? (depth + 1) rest
  | _ :: rest => afterComment? depth rest
  | [] => none

/-- Skips blanks and comments. A comment must end, and a single slash is a mistake. -/
def skip : (fuel : Nat) → Input → Option Input
  | 0, _ => none
  | fuel + 1, cs =>
    match cs.dropWhile isBlank with
    | '/' :: '/' :: rest => skip fuel (rest.dropWhile (· != '\n'))
    | '/' :: '*' :: rest => do skip fuel (← afterComment? 0 rest)
    | '/' :: _ => none
    | cs => some cs

def skipBlanks (cs : Input) : Option Input := skip (cs.length + 1) cs

/-! ### Names -/

def isNameStart (c : Char) : Bool := c.isAlpha || c == '_'

def isNameChar (c : Char) : Bool := c.isAlphanum || c == '_'

def isRawNameChar (c : Char) : Bool := isNameChar c || c == '.' || c == '+' || c == '-'

/-- A name; one after `r#` may have more characters. The start of a raw string is no name. -/
def name? : Input → Option (String × Input)
  | 'r' :: '"' :: _ => none
  | 'r' :: '#' :: c :: rest =>
    if isRawNameChar c then
      some (String.ofList (c :: rest.takeWhile isRawNameChar), rest.dropWhile isRawNameChar)
    else none
  | ['r', '#'] => none
  | c :: rest =>
    if isNameStart c then
      some (String.ofList (c :: rest.takeWhile isNameChar), rest.dropWhile isNameChar) else none
  | [] => none

/-- What follows a word that is not the start of a longer name. -/
def afterWord? (word : String) (cs : Input) : Option Input :=
  let rest := cs.drop word.length
  if word.toList.isPrefixOf cs && !rest.head?.any isNameChar then some rest else none

/-! ### Strings -/

/-- A character by its number, which has up to six digits in braces. -/
def numbered? (cs : Input) : Option (Char × Input) :=
  match cs with
  | '\x7b' :: rest => do
    let digits := rest.takeWhile fun c => (hexDigit? c).isSome
    guard (0 < digits.length && digits.length ≤ 6)
    let n := digits.foldl (fun n c => n * 16 + (hexDigit? c).getD 0) 0
    guard (n < 0xd800 || (0xdfff < n && n < 0x110000))
    match rest.drop digits.length with
    | '\x7d' :: rest => return (Char.ofNat n, rest)
    | _ => none
  | _ => none

def escape? : Input → Option (Char × Input)
  | '\'' :: rest => some ('\'', rest)
  | '"' :: rest => some ('"', rest)
  | '\\' :: rest => some ('\\', rest)
  | 'n' :: rest => some ('\n', rest)
  | 'r' :: rest => some ('\r', rest)
  | 't' :: rest => some ('\t', rest)
  | '0' :: rest => some ('\x00', rest)
  | 'x' :: a :: b :: rest => do return (Char.ofNat ((← hexDigit? a) * 16 + (← hexDigit? b)), rest)
  | 'u' :: rest => numbered? rest
  | _ => none

def scanString (acc : List Char) : (fuel : Nat) → Input → Option (String × Input)
  | 0, _ => none
  | fuel + 1, cs =>
    match cs with
    | '"' :: rest => some (String.ofList acc.reverse, rest)
    | '\\' :: rest => do
      let (c, rest) ← escape? rest
      scanString (c :: acc) fuel rest
    | c :: rest => scanString (c :: acc) fuel rest
    | [] => none

/-- Reads a string up to a quote with as many number signs after it as stood before the first
one. -/
def scanRaw (signs : Nat) (acc : List Char) : Input → Option (String × Input)
  | [] => none
  | c :: rest =>
    if c = '"' && (List.replicate signs '#').isPrefixOf rest then
      some (String.ofList acc.reverse, rest.drop signs)
    else scanRaw signs (c :: acc) rest

def scanChar : Input → Option (String × Input)
  | '\\' :: rest =>
    match escape? rest with
    | some (c, '\'' :: rest) => some (c.toString, rest)
    | _ => none
  | c :: '\'' :: rest => if c = '\'' then none else some (c.toString, rest)
  | _ => none

/-! ### Numbers -/

def isFloatChar (c : Char) : Bool :=
  Setting.isDigit c || c == 'e' || c == 'E' || c == '.' || c == '+' || c == '-' || c == '_'

def isIntChar (c : Char) : Bool := (hexDigit? c).isSome || c == '_'

def base (cs : Input) : Nat × Input :=
  match cs with
  | '0' :: 'x' :: rest => (16, rest)
  | '0' :: 'b' :: rest => (2, rest)
  | '0' :: 'o' :: rest => (8, rest)
  | cs => (10, cs)

/-- An integer of at most 64 bits. One that only fits without a sign is taken as a float. -/
def integer? (cs : Input) : Option (Setting × Input) := do
  let (negative, rest) := Setting.signed cs
  let (base, rest) := base rest
  let digits := rest.takeWhile isIntChar
  guard (digits.head?.any (· != '_') &&
    (digits.all fun c => c == '_' || (hexDigit? c).any (· < base)))
  let n := digits.foldl (fun n c => if c = '_' then n else n * base + (hexDigit? c).getD 0) 0
  let rest := rest.drop digits.length
  if negative then
    guard (n ≤ UInt64.size / 2)
    return (.int (Int64.ofInt (-n)), rest)
  else if n < UInt64.size / 2 then return (.int (Int64.ofInt n), rest)
  else
    guard (n < UInt64.size && cs.head? != some '+')
    return (.float (UInt64.ofNat n).toFloat, rest)

def float? (cs : Input) : Option (Setting × Input) := do
  let digits := cs.takeWhile isFloatChar
  guard (!digits.contains '_')
  return (.float (← Setting.float? (String.ofList digits)), cs.drop digits.length)

/-- A number is a float for sure if it goes on longer as one; else it is one if it is no integer. -/
def scanNumber (cs : Input) : Option (Setting × Input) :=
  let (_, rest) := Setting.signed cs
  if (rest.takeWhile isIntChar).length < (rest.takeWhile isFloatChar).length then float? cs
  else integer? cs <|> float? cs

def floatWords : List (String × Float) :=
  [("inf", 1.0 / 0.0), ("-inf", -(1.0 / 0.0)), ("NaN", 0.0 / 0.0)]

/-! ### Values -/

def scanScalar (cs : Input) : Option (Setting × Input) :=
  match cs with
  | '"' :: rest => (scanString [] (rest.length + 1) rest).map fun (s, rest) => (.text s, rest)
  | 'r' :: rest =>
    let signs := (rest.takeWhile (· == '#')).length
    match rest.drop signs with
    | '"' :: rest => (scanRaw signs [] rest).map fun (s, rest) => (.text s, rest)
    | _ => none
  | '\'' :: rest => (scanChar rest).map fun (s, rest) => (.text s, rest)
  | cs => scanNumber cs

def keyOf? : Content → Option String
  | .scalar (.text s) => some s
  | .scalar _ | .list | .table _ => none

/-- How many values may be inside each other. -/
def maxDepth : Nat := 128

mutual

/-- Reads a value that starts at the first character and may hold `depth` more values inside each
other. -/
def scanValue (depth : Nat) : (fuel : Nat) → Input → Option (Content × Input)
  | 0, _ => none
  | fuel + 1, cs =>
    match afterWord? "true" cs, afterWord? "false" cs, afterWord? "Some" cs, afterWord? "None" cs,
        floatWords.findSome? fun (w, x) => (afterWord? w cs).map fun rest => (x, rest) with
    | some rest, _, _, _, _ => some (.scalar (.bool true), rest)
    | _, some rest, _, _, _ => some (.scalar (.bool false), rest)
    | _, _, some rest, _, _ => do
      let '(' :: rest ← skipBlanks rest | none
      guard (0 < depth)
      let (v, rest) ← scanValue (depth - 1) fuel (← skipBlanks rest)
      let rest ← match ← skipBlanks rest with
        | ',' :: rest => skipBlanks rest
        | rest => some rest
      match rest with
      | ')' :: rest => return (v, rest)
      | _ => none
    | _, _, _, some rest, _ => some (.scalar .null, rest)
    | _, _, _, _, some (x, rest) => some (.scalar (.float x), rest)
    | none, none, none, none, none => do
      let (named, rest) ← match name? cs with
        | some (_, rest) => (skipBlanks rest).map fun rest => (true, rest)
        | none => some (false, cs)
      match rest with
      | '(' :: ')' :: rest => return (if named then .list else .scalar .null, rest)
      | '(' :: rest => do
        let rest ← skipBlanks rest
        let field : Option Input := match name? rest with
          | none => none
          | some (_, after) =>
            (skipBlanks after).bind fun after => if after.head? = some ':' then some rest else none
        match field with
        | some rest => do
          let (entries, rest) ← scanFields depth fuel rest
          return (.table entries, rest)
        | none => do
          let rest ← scanItems depth ')' fuel rest
          return (.list, rest)
      | rest =>
        if named then return (.scalar .null, rest)
        else
          match rest with
          | '[' :: rest => do
            let rest ← scanItems depth ']' fuel (← skipBlanks rest)
            return (.list, rest)
          | '\x7b' :: rest => do
            let (entries, rest) ← scanEntries depth fuel (← skipBlanks rest)
            return (.table entries, rest)
          | rest => do
            let (s, rest) ← scanScalar rest
            return (.scalar s, rest)
termination_by structural fuel => fuel

def scanItems (depth : Nat) (close : Char) : (fuel : Nat) → Input → Option Input
  | 0, _ => none
  | fuel + 1, cs => do
    if cs.head? = some close then return cs.drop 1
    guard (0 < depth)
    let (_, rest) ← scanValue (depth - 1) fuel cs
    match ← skipBlanks rest with
    | ',' :: rest => scanItems depth close fuel (← skipBlanks rest)
    | c :: rest => if c = close then return rest else none
    | [] => none
termination_by structural fuel => fuel

def scanFields (depth : Nat) : (fuel : Nat) → Input → Option (List (String × Setting) × Input)
  | 0, _ => none
  | fuel + 1, cs => do
    if cs.head? = some ')' then return ([], cs.drop 1)
    guard (0 < depth)
    let (key, rest) ← name? cs
    let ':' :: rest ← skipBlanks rest | none
    let (v, rest) ← scanValue (depth - 1) fuel (← skipBlanks rest)
    match ← skipBlanks rest with
    | ',' :: rest => do
      let (entries, rest) ← scanFields depth fuel (← skipBlanks rest)
      return ((key, v.setting) :: entries, rest)
    | ')' :: rest => return ([(key, v.setting)], rest)
    | _ => none
termination_by structural fuel => fuel

/-- Reads the entries of a map and its closing brace. Its keys must be bare texts. -/
def scanEntries (depth : Nat) : (fuel : Nat) → Input → Option (List (String × Setting) × Input)
  | 0, _ => none
  | fuel + 1, cs => do
    if cs.head? = some '\x7d' then return ([], cs.drop 1)
    guard (0 < depth && (afterWord? "Some" cs).isNone)
    let (k, rest) ← scanValue (depth - 1) fuel cs
    let key ← keyOf? k
    let ':' :: rest ← skipBlanks rest | none
    let (v, rest) ← scanValue (depth - 1) fuel (← skipBlanks rest)
    match ← skipBlanks rest with
    | ',' :: rest => do
      let (entries, rest) ← scanEntries depth fuel (← skipBlanks rest)
      return ((key, v.setting) :: entries, rest)
    | '\x7d' :: rest => return ([(key, v.setting)], rest)
    | _ => none
termination_by structural fuel => fuel

end

/-! ### Files -/

def extensionNames : List String := ["unwrap_newtypes", "implicit_some", "unwrap_variant_newtypes"]

/-- What follows the names of extensions and the brackets that close their list. -/
def afterExtensions? : (fuel : Nat) → Input → Option Input
  | 0, _ => none
  | fuel + 1, cs => do
    let (name, rest) ← name? cs
    guard (extensionNames.contains name)
    match ← skipBlanks rest with
    | ',' :: rest =>
      match ← skipBlanks rest with
      | ')' :: rest => close? rest
      | rest => afterExtensions? fuel rest
    | ')' :: rest => close? rest
    | _ => none
where
  close? (cs : Input) : Option Input := do
    match ← skipBlanks cs with
    | ']' :: rest => return rest
    | _ => none

/-- Skips the lists of extensions at the start of a file. -/
def skipExtensions : (fuel : Nat) → Input → Option Input
  | 0, _ => none
  | fuel + 1, cs => do
    match ← skipBlanks cs with
    | '#' :: rest => do
      let '!' :: rest ← skipBlanks rest | none
      let '[' :: rest ← skipBlanks rest | none
      let rest ← afterWord? "enable" (← skipBlanks rest)
      let '(' :: rest ← skipBlanks rest | none
      let rest ← skipBlanks rest
      skipExtensions fuel (← afterExtensions? rest.length rest)
    | cs => return cs

def parse (text : String) : Option (List (String × Setting)) := do
  let cs ← skipExtensions (text.length + 1) text.toList
  let (content, rest) ← scanValue maxDepth (2 * cs.length + 2) cs
  guard ((← skipBlanks rest).isEmpty)
  content.entries?

example :
    ((parse "/* c */ C(a: 0x1, b: Some(\"x\"), c: (.5, 'd',),)").map fun entries =>
      entries.map fun e => e.1) =
    some ["a", "b", "c"] := by decide +kernel
example : ((parse "\x7b\"a\": 1, b: 2\x7d").map fun entries => entries.map fun e => e.1) =
    none := by decide +kernel

end ProcEngine.Ron
