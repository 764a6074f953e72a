import ProcEngine.Config.Content
import ProcEngine.Config.Yaml.Token
/-!
# YAML documents

Tokens become nodes by a grammar that looks one token ahead. A file holds one document at most, and
no mapping in it has a key twice.
-/

namespace ProcEngine.Yaml

open ProcEngine.Config (Content)

/-! ### Scalars -/

def based? (base : Nat) (cs : List Char) : Option Int64 := do
  let (negative, digits) := Setting.signed cs
  guard (!digits.isEmpty && digits.all fun c => (Json.hexDigit? c).any (· < base))
  let n := digits.foldl (fun n c => n * base + (Json.hexDigit? c).getD 0) 0
  if negative then if n ≤ UInt64.size / 2 then some (Int64.ofInt (-n)) else none
  else if n < UInt64.size / 2 then some (Int64.ofInt n) else none

def integer? (text : String) : Option Int64 :=
  let marked := match text.toList with
    | '0' :: 'x' :: rest => based? 16 rest
    | '0' :: 'o' :: rest => based? 8 rest
    | '+' :: rest => Setting.int? (String.ofList rest)
    | _ => none
  marked <|> Setting.int? text

/-- Infinities and what is no number can be written, but are not taken as settings. -/
def isSpecial (text : String) : Bool :=
  [".inf", ".Inf", ".INF", "+.inf", "+.Inf", "+.INF", "-.inf", "-.Inf", "-.INF", ".nan", ".NaN",
    ".NAN"].contains text

def float? (text : String) : Option Float :=
  if text.toList.any Setting.isDigit then Setting.float? text else none

def plainSetting? (text : String) : Option Setting :=
  if text = "" || text = "~" || text = "null" then some .null
  else if text = "true" then some (.bool true)
  else if text = "false" then some (.bool false)
  else if isSpecial text then none
  else
    match integer? text, float? text with
    | some i, _ => some (.int i)
    | none, some x => some (.float x)
    | none, none => some (.text text)

/-- What a plain scalar with a standard tag stands for: nothing if it is not of the kind. -/
def taggedSetting? (tag text : String) : Option Setting :=
  match tag with
  | "bool" =>
    some (if text = "true" then .bool true else if text = "false" then .bool false else .null)
  | "int" => some (((Setting.int? text).map .int).getD .null)
  | "float" => if isSpecial text then none else some (((float? text).map .float).getD .null)
  | "null" => some .null
  | _ => some (.text text)

def scalar? (tag : Option (Option String)) (plain : Bool) (text : String) : Option Setting :=
  match plain, tag with
  | true, none => plainSetting? text
  | true, some (some tag) => taggedSetting? tag text
  | _, _ => some (.text text)

/-! ### Nodes -/

/-- The nodes that have got names, the latest first. -/
abbrev Anchors := List (String × Content)

/-- What a node comes to, the names known after it, and the tokens left. -/
structure Parsed where
  content : Content
  anchors : Anchors
  rest : List Token

def null : Content := .scalar .null

/-- The key that a node can be, and whether it is a number. -/
def key? : Content → Option (String × Bool)
  | .scalar (.text s) => some (s, false)
  | .scalar (.int i) => some (toString i.toInt, true)
  | .scalar _ | .list | .table _ => none

/-- The entries of a mapping as they are read, the last one first. -/
abbrev Entries := List ((String × Bool) × Setting)

def addEntry (key value : Content) (entries : Entries) : Option Entries := do
  let key ← key? key
  guard (!entries.any fun e => e.1 == key)
  return (key, value.setting) :: entries

def table (entries : Entries) : Content := .table (entries.reverse.map fun e => (e.1.1, e.2))

/-- The name and the tag in front of a node, in either order. -/
def properties (anchor : Option String) (tag : Option (Option String)) :
    List Token → Option String × Option (Option String) × List Token
  | .anchor name :: rest => if anchor.isSome then (anchor, tag, .anchor name :: rest)
    else properties (some name) tag rest
  | .tag name :: rest =>
    if tag.isSome then (anchor, tag, .tag name :: rest) else properties anchor (some name) rest
  | rest => (anchor, tag, rest)

/-- Where a node stands, which decides what it may be. -/
inductive Site
  /-- Between brackets. -/
  | flow
  | block
  /-- In a block mapping, where a sequence need not be indented. -/
  | entry
  deriving DecidableEq

mutual

def node (site : Site) (anchors : Anchors) : (fuel : Nat) → List Token → Option Parsed
  | 0, _ => none
  | _ + 1, .reference name :: rest => do return ⟨← anchors.lookup name, anchors, rest⟩
  | fuel + 1, tokens => do
    let (anchor, tag, rest) := properties none none tokens
    let known : Anchors := match anchor with
      | some name => (name, null) :: anchors
      | none => anchors
    let p ← match rest with
      | .scalar plain text :: rest => do
        let s ← scalar? tag plain text
        some ⟨.scalar s, known, rest⟩
      | .flowSequence :: rest => flowItems true known fuel rest
      | .flowMapping :: rest => flowEntries true [] known fuel rest
      | .blockSequence :: rest => if site = .flow then none else blockItems known fuel rest
      | .blockMapping :: rest => if site = .flow then none else blockEntries [] known fuel rest
      | rest =>
        if site = .entry && rest.head? = some .blockEntry then looseItems known fuel rest
        else if anchor.isSome || tag.isSome then (scalar? tag true "").map fun s =>
          ⟨.scalar s, known, rest⟩
        else none
    return match anchor with
      | some name => { p with anchors := (name, p.content) :: p.anchors }
      | none => p

/-- Reads a node that may be missing before the tokens of a list. -/
def nodeOr (site : Site) (ends : List Token) (anchors : Anchors) : (fuel : Nat) → List Token →
    Option Parsed
  | 0, _ => none
  | fuel + 1, tokens =>
    if tokens.head?.any ends.contains then some ⟨null, anchors, tokens⟩
    else node site anchors fuel tokens

def blockItems (anchors : Anchors) : (fuel : Nat) → List Token → Option Parsed
  | 0, _ => none
  | fuel + 1, .blockEntry :: rest => do
    let p ← nodeOr .block [.blockEntry, .blockEnd] anchors fuel rest
    blockItems p.anchors fuel p.rest
  | _ + 1, .blockEnd :: rest => some ⟨.list, anchors, rest⟩
  | _ + 1, _ => none

/-- Reads the items of a sequence without an indentation of its own. -/
def looseItems (anchors : Anchors) : (fuel : Nat) → List Token → Option Parsed
  | 0, _ => none
  | fuel + 1, .blockEntry :: rest => do
    let p ← nodeOr .block [.blockEntry, .key, .value, .blockEnd] anchors fuel rest
    looseItems p.anchors fuel p.rest
  | _ + 1, rest => some ⟨.list, anchors, rest⟩

def blockEntries (entries : Entries) (anchors : Anchors) : (fuel : Nat) → List Token → Option Parsed
  | 0, _ => none
  | _ + 1, .blockEnd :: rest => some ⟨table entries, anchors, rest⟩
  | fuel + 1, tokens => do
    let k ← match tokens with
      | .key :: rest => nodeOr .entry [.key, .value, .blockEnd] anchors fuel rest
      | .value :: _ => some ⟨null, anchors, tokens⟩
      | _ => none
    let v ← match k.rest with
      | .value :: rest => nodeOr .entry [.key, .value, .blockEnd] k.anchors fuel rest
      | rest => some ⟨null, k.anchors, rest⟩
    blockEntries (← addEntry k.content v.content entries) v.anchors fuel v.rest

/-- Reads the items of a sequence in brackets. An item may be an entry of a mapping of its own. -/
def flowItems (isFirst : Bool) (anchors : Anchors) : (fuel : Nat) → List Token → Option Parsed
  | 0, _ => none
  | _ + 1, .flowSequenceEnd :: rest => some ⟨.list, anchors, rest⟩
  | fuel + 1, tokens => do
    let tokens ← match isFirst, tokens with
      | true, tokens => some tokens
      | false, .flowEntry :: rest => some rest
      | false, _ => none
    match tokens with
    | .flowSequenceEnd :: rest => return ⟨.list, anchors, rest⟩
    | .key :: rest => do
      let k ← nodeOr .flow [.value, .flowEntry, .flowSequenceEnd] anchors fuel rest
      let v ← flowValue [.flowEntry, .flowSequenceEnd] k.anchors fuel k.rest
      let _ ← addEntry k.content v.content []
      flowItems false v.anchors fuel v.rest
    | tokens => do
      let p ← node .flow anchors fuel tokens
      flowItems false p.anchors fuel p.rest

/-- Reads what follows a key between brackets: a value after its sign, or nothing. -/
def flowValue (ends : List Token) (anchors : Anchors) : (fuel : Nat) → List Token → Option Parsed
  | 0, _ => none
  | fuel + 1, .value :: rest => nodeOr .flow ends anchors fuel rest
  | _ + 1, rest => some ⟨null, anchors, rest⟩

def flowEntries (isFirst : Bool) (entries : Entries) (anchors : Anchors) : (fuel : Nat) →
    List Token → Option Parsed
  | 0, _ => none
  | _ + 1, .flowMappingEnd :: rest => some ⟨table entries, anchors, rest⟩
  | fuel + 1, tokens => do
    let tokens ← match isFirst, tokens with
      | true, tokens => some tokens
      | false, .flowEntry :: rest => some rest
      | false, _ => none
    match tokens with
    | .flowMappingEnd :: rest => return ⟨table entries, anchors, rest⟩
    | tokens => do
      let k ← match tokens with
        | .key :: rest => nodeOr .flow [.value, .flowEntry, .flowMappingEnd] anchors fuel rest
        | .value :: _ => some ⟨null, anchors, tokens⟩
        | tokens => node .flow anchors fuel tokens
      let v ← flowValue [.flowEntry, .flowMappingEnd] k.anchors fuel k.rest
      flowEntries false (← addEntry k.content v.content entries) v.anchors fuel v.rest

end

/-! ### Documents -/

/-- Reads the documents of a file. One without a mark at its start may only come first or after an
end. -/
def documents (mayBegin : Bool) : (fuel : Nat) → List Token → Option (List Content)
  | 0, _ => none
  | fuel + 1, tokens => do
    let rest := tokens.dropWhile (· == .documentEnd)
    if rest.isEmpty then return []
    let directives := rest.takeWhile (· == .directive)
    let isMarked := (rest.drop directives.length).head? = some .documentStart
    guard (isMarked || (mayBegin && directives.isEmpty))
    let start := if isMarked then rest.drop (directives.length + 1) else rest
    let isEmpty := isMarked && start.head?.all [.directive, .documentStart, .documentEnd].contains
    let p ← if isEmpty then some ⟨null, [], start⟩ else node .block [] (4 * start.length + 4) start
    let ended := p.rest.head? = some .documentEnd
    guard (ended || p.rest.head? != some .directive)
    return p.content :: (← documents ended fuel p.rest)

/-- The settings of a file. An empty one has none. -/
def parse (text : String) : Option (List (String × Setting)) := do
  let tokens ← tokens? text
  match ← documents true (tokens.length + 1) tokens with
  | [] => return []
  | [content] => content.entries?
  | _ => none

example :
    (parse "a: &x 0x10 # c\nb:\n- *x\nc: 'd'\n").map (fun entries => entries.map fun e =>
      (e.1, e.2.toText?)) =
    some [("a", some "16"), ("b", none), ("c", some "d")] := by decide +kernel

end ProcEngine.Yaml
