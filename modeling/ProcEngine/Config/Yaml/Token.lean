import ProcEngine.Config.Yaml.Scalar
/-!
# The tokens of a YAML text

Indentation becomes tokens of its own: a block collection begins and ends with a token. Whether a
node is the key of a mapping shows only at the colon after it, so the place of its first token is
remembered while it may be one, and the tokens for the key, and for its mapping if that begins here,
are put in front of it then.
-/

namespace ProcEngine.Yaml

inductive Token
  | directive
  | documentStart
  | documentEnd
  | blockSequence
  | blockMapping
  | blockEnd
  | flowSequence
  | flowSequenceEnd
  | flowMapping
  | flowMappingEnd
  | blockEntry
  | flowEntry
  | key
  | value
  | anchor (name : String)
  /-- A node that was given a name before. -/
  | reference (name : String)
  /-- A tag, with its name if it is one of the standard tags. -/
  | tag (name : Option String)
  | scalar (plain : Bool) (text : String)
  deriving DecidableEq

/-- A node that may turn out to be a key, and what kind of brackets are open around it. -/
structure KeyPlace where
  possible : Bool := false
  /-- Whether it must be a key because of where it stands. -/
  required : Bool := false
  token : Nat := 0
  start : Cursor := ⟨[], 0, 0, 0, true⟩
  inBraces : Bool := false

/-- An indentation that was left for a deeper one. The deeper one may be that of a block collection,
or only what the text after a sign must exceed. -/
structure Level where
  indent : Int
  isBlock : Bool

structure Lexer where
  cursor : Cursor
  tokens : Array Token := #[]
  indent : Int := -1
  levels : List Level := []
  /-- The last place of a key for each open bracket, the innermost first. -/
  keys : List KeyPlace := []
  /-- The same outside brackets. -/
  blockKey : KeyPlace := {}
  /-- Whether a key may begin here. -/
  keyAllowed : Bool := true
  /-- Where a colon may follow directly because what stands before it could be a key in JSON. -/
  adjacent : Option Nat := none

namespace Lexer

def inFlow (l : Lexer) : Bool := !l.keys.isEmpty

def emit (l : Lexer) (t : Token) : Lexer := { l with tokens := l.tokens.push t }

def allow (l : Lexer) (keyAllowed : Bool) : Lexer := { l with keyAllowed }

def move (l : Lexer) (cursor : Cursor) : Lexer := { l with cursor }

def passGap (l : Lexer) : Option Lexer := do return l.move (← l.cursor.gap? true).cursor

/-! ### Indentation -/

def unrollTo (column : Int) (l : Lexer) : List Level → Lexer
  | [] => { l with levels := [] }
  | level :: outer =>
    if column < l.indent then
      unrollTo column { (if level.isBlock then l.emit .blockEnd else l) with indent :=
        level.indent } outer
    else { l with levels := level :: outer }

def unroll (column : Int) (l : Lexer) : Lexer := if l.inFlow then l else unrollTo column l l.levels

/-- Leaves the levels that are not those of collections. -/
def unrollSoft (l : Lexer) : List Level → Lexer
  | [] => { l with levels := [] }
  | level :: outer =>
    if level.isBlock then { l with levels := level :: outer }
    else unrollSoft { l with indent := level.indent } outer

/-- Leaves one level that is not that of a collection. -/
def unrollOne (l : Lexer) : Lexer :=
  match l.levels with
  | level :: outer =>
    if level.isBlock then l else { l with indent := level.indent, levels := outer }
  | [] => l

/-- Begins a block collection at a column, unless it is there already. Its token goes before the one
at `place`. -/
def roll (column : Nat) (place : Nat) (t : Token) (l : Lexer) : Lexer :=
  if l.inFlow then l
  else
    let l := if l.indent ≤ column then l.unrollOne else l
    if l.indent < column then
      { l with
        levels := ⟨l.indent, true⟩ :: l.levels
        indent := column
        tokens := l.tokens.insertIdxIfInBounds place t }
    else l

/-- Asks what follows to stand right of the collection it belongs to. -/
def rollOne (l : Lexer) : Lexer :=
  if !l.inFlow && l.levels.head?.any Level.isBlock then
    { l with levels := ⟨l.indent, false⟩ :: l.levels, indent := l.indent + 1 }
  else l

/-! ### Keys -/

def keyPlace (l : Lexer) : KeyPlace := l.keys.head?.getD l.blockKey

def setKey (l : Lexer) (k : KeyPlace) : Lexer :=
  match l.keys with
  | [] => { l with blockKey := k }
  | _ :: outer => { l with keys := k :: outer }

/-- Remembers that a key may begin here. -/
def saveKey (l : Lexer) : Lexer :=
  if l.keyAllowed then
    l.setKey
      { possible := true
        required := !l.inFlow && l.indent == l.cursor.column && l.levels.head?.any Level.isBlock
        token := l.tokens.size
        start := l.cursor
        inBraces := l.keyPlace.inBraces }
  else l

/-- Gives up that the last node may be a key. -/
def dropKey (l : Lexer) : Option Lexer :=
  let k := l.keyPlace
  if k.possible && k.required then none else some (l.setKey { k with possible := false })

/-- Gives up a key outside brackets that has no colon on its line, or soon enough. -/
def dropStaleKey (l : Lexer) : Option Lexer :=
  let k := l.blockKey
  if !l.inFlow && k.possible &&
    (k.start.line < l.cursor.line || k.start.offset + 1024 < l.cursor.offset) then
    if k.required then none else some { l with blockKey := { k with possible := false } }
  else some l

/-! ### Blanks -/

/-- Skips to the next token. A tab must not indent a block. -/
def skip : (fuel : Nat) → Lexer → Option Lexer
  | 0, l => some l
  | fuel + 1, l =>
    let c := l.cursor
    match c.head with
    | none => some l
    | some ch =>
      if ch = '\t' && !l.levels.isEmpty && c.isFresh && (c.column : Int) < l.indent then do
        let l ← l.passGap
        guard l.cursor.isAtBreak
        skip fuel l
      else if isBlank ch then skip fuel (l.move (c.blanks 1))
      else if isBreak ch then
        let l := l.move c.nextLine
        skip fuel (if l.inFlow then l else l.allow true)
      else if ch = '#' then skip fuel (l.move c.comment)
      else some l

/-! ### Tokens -/

/-- Goes back to no indentation for a directive or a mark of a document. -/
def beginLine (l : Lexer) : Option Lexer := do return (← (l.unroll (-1)).dropKey).allow false

def scanMark (l : Lexer) (t : Token) : Option Lexer := do
  let l ← l.beginLine
  return (l.move (l.cursor.chars 3)).emit t

def scanDirective (l : Lexer) : Option Lexer := do
  let l ← l.beginLine
  return (l.move l.cursor.comment).emit .directive

def scanEnd (l : Lexer) : Option Lexer := do
  guard (!(l.blockKey.possible && l.blockKey.required) &&
    !(l.keys.any fun k => k.possible && k.required))
  return l.unroll (-1)

def maxFlow : Nat := 255

def openFlow (l : Lexer) (inBraces : Bool) : Option Lexer := do
  guard (l.keys.length < maxFlow)
  let l := l.saveKey.rollOne
  let l := { l with keys := { inBraces } :: l.keys }
  let l := (l.allow true).emit (if inBraces then .flowMapping else .flowSequence)
  (l.move (l.cursor.chars 1)).passGap

def closeFlow (l : Lexer) (t : Token) : Option Lexer := do
  let l ← l.dropKey
  let l := { l with keys := l.keys.drop 1 }
  let l ← ((l.allow false).move (l.cursor.chars 1)).passGap
  return { (l.emit t) with adjacent := if l.inFlow then some l.cursor.offset else l.adjacent }

def scanFlowEntry (l : Lexer) : Option Lexer := do
  let l := (← l.dropKey).allow true
  return (← (l.move (l.cursor.chars 1)).passGap).emit .flowEntry

def scanBlockEntry (l : Lexer) : Option Lexer := do
  guard (!l.inFlow && l.keyAllowed)
  let column := l.cursor.column
  let l := (l.move (l.cursor.chars 1)).roll column l.tokens.size .blockSequence
  let g ← l.cursor.gap? true
  guard (!(g.tabs && g.cursor.head = some '-' && g.cursor.endsAt 1))
  let l := l.move g.cursor
  let l := if l.cursor.head.any fun ch => isBreak ch || isFlow ch then l.rollOne else l
  return ((← l.dropKey).allow true).emit .blockEntry

def scanKey (l : Lexer) : Option Lexer := do
  guard (l.inFlow || l.keyAllowed)
  let l := l.roll l.cursor.column l.tokens.size .blockMapping
  let l ← l.dropKey
  let l := l.allow (!l.inFlow)
  let g ← (l.cursor.chars 1).gap? false
  guard (g.cursor.head != some '\t')
  return (l.move g.cursor).emit .key

def scanValue (l : Lexer) : Option Lexer := do
  let k := l.keyPlace
  let start := l.cursor
  let l := l.move (start.chars 1)
  let l ←
    if l.cursor.head = some '\t' then do
      let g ← l.cursor.gap? true
      guard (g.spaces || !g.cursor.head.any fun ch => ch == '-' || ch.isAlphanum || ch == '_')
      pure (l.move g.cursor)
    else pure l
  if k.possible then do
    guard (!l.inFlow || k.inBraces || k.start.line = start.line)
    let l := { l with tokens := l.tokens.insertIdxIfInBounds k.token .key }
    let l := (l.roll k.start.column k.token .blockMapping).rollOne
    return ((l.setKey { k with possible := false }).allow false).emit .value
  else do
    guard (l.inFlow || l.keyAllowed)
    let l := if l.inFlow then l else l.roll start.column l.tokens.size .blockMapping
    let l := l.rollOne
    return (l.allow (!l.inFlow)).emit .value

def isNameChar (c : Char) : Bool := !isBlank c && !isBreak c && !isFlow c && c != '\ufeff'

def scanName (l : Lexer) (t : String → Token) : Option Lexer := do
  let l := l.saveKey.allow false
  let name := (l.cursor.rest.drop 1).takeWhile isNameChar
  let c := l.cursor.chars (name.length + 1)
  guard (!name.isEmpty &&
    (c.endsAt 0 || c.head.any fun ch => ch == ',' || ch == ']' || ch == '\x7d'))
  return (l.move c).emit (t (String.ofList name))

/-- Reads a tag. Only the standard tags and local ones are declared. -/
def scanTag (l : Lexer) : Option Lexer := do
  let l := l.saveKey.allow false
  let word :=
    (l.cursor.rest.drop 1).takeWhile fun c => !isBlank c && !isBreak c && !(l.inFlow && isFlow c)
  let l := l.move (l.cursor.chars (word.length + 1))
  match word with
  | '!' :: name => return l.emit (.tag (some (String.ofList name)))
  | '<' :: uri => do
    guard (uri.getLast? = some '>')
    return l.emit (.tag none)
  | word => do
    guard (!word.contains '!')
    return l.emit (.tag none)

def scanBlockScalar (l : Lexer) (literal : Bool) : Option Lexer := do
  let l := l.saveKey.allow true
  let l := unrollSoft l l.levels
  let (text, c) ← scanBlock literal l.indent (l.cursor.chars 1)
  return (l.move c).emit (.scalar false (String.ofList text))

/-- What may follow a quoted scalar on its line. -/
def isAfterQuote (inFlow : Bool) (firstLine : Nat) (c : Cursor) : Bool :=
  match c.head with
  | none => true
  | some ch =>
    isBreak ch || (inFlow && (ch == ',' || ch == ']' || ch == '\x7d' || ch == ':')) ||
      (!inFlow && ch == ':' && c.line == firstLine)

def scanQuotedScalar (l : Lexer) (single : Bool) : Option Lexer := do
  let l := l.saveKey.allow false
  let start := l.cursor
  let (text, c) ← scanQuoted single l.indent [] (start.rest.length + 1) (start.chars 1)
  let l ← (l.move c).passGap
  guard (isAfterQuote l.inFlow start.line l.cursor)
  let l ← skip (l.cursor.rest.length + 1) l
  return { l.emit (.scalar false (String.ofList text.reverse)) with
    adjacent := some l.cursor.offset }

def scanPlainScalar (l : Lexer) : Option Lexer := do
  let l := l.saveKey.allow false
  let l := unrollSoft l l.levels
  let indent := l.indent + 1
  guard (!(l.inFlow && (l.cursor.column : Int) < indent))
  let (text, c) ← scanPlain l.inFlow indent [] {} (l.cursor.rest.length + 1) l.cursor
  let l := (l.move c).emit (.scalar true (String.ofList text.reverse))
  return if c.isFresh then l.allow true else l

inductive Step
  | more (l : Lexer)
  | finished (tokens : Array Token)

def next (l : Lexer) : Option Step := do
  let l ← skip (l.cursor.rest.length + 1) l
  let l ← l.dropStaleKey
  let l := l.unroll l.cursor.column
  let c := l.cursor
  let on (x : Option Lexer) : Option Step := x.map .more
  match c.head with
  | none => l.scanEnd.map fun l => .finished l.tokens
  | some ch =>
    if c.column = 0 && ch = '%' then on l.scanDirective
    else if c.isAtMark '-' then on (l.scanMark .documentStart)
    else if c.isAtMark '.' then on do
      let l ← (← l.scanMark .documentEnd).passGap
      guard l.cursor.isAtBreak
      return l
    else if (c.column : Int) < l.indent then none
    else if ch = '[' then on (l.openFlow false)
    else if ch = '\x7b' then on (l.openFlow true)
    else if ch = ']' then on (l.closeFlow .flowSequenceEnd)
    else if ch = '\x7d' then on (l.closeFlow .flowMappingEnd)
    else if ch = ',' then on l.scanFlowEntry
    else if ch = '-' && c.endsAt 1 then on l.scanBlockEntry
    else if ch = '?' && c.endsAt 1 then on l.scanKey
    else if ch = ':' &&
      (c.endsAt 1 || (l.inFlow && ((c.peek 1).any isFlow || l.adjacent = some c.offset))) then
      on l.scanValue
    else if ch = '*' then on (l.scanName .reference)
    else if ch = '&' then on (l.scanName .anchor)
    else if ch = '!' then on l.scanTag
    else if ch = '|' && !l.inFlow then on (l.scanBlockScalar true)
    else if ch = '>' && !l.inFlow then on (l.scanBlockScalar false)
    else if ch = '\'' then on (l.scanQuotedScalar true)
    else if ch = '"' then on (l.scanQuotedScalar false)
    else if ch = '%' || ch = '@' || ch = '\x60' then none
    else on l.scanPlainScalar

def all : (fuel : Nat) → Lexer → Option (List Token)
  | 0, _ => none
  | fuel + 1, l => do
    match ← l.next with
    | .more l => all fuel l
    | .finished tokens => return tokens.toList

end Lexer

/-- The tokens of a text, which a null character ends. Every step but the last one passes a
character. -/
def tokens? (text : String) : Option (List Token) :=
  let cs := text.toList.takeWhile (· != '\x00')
  Lexer.all (cs.length + 2) { cursor := { rest := cs } }

end ProcEngine.Yaml
