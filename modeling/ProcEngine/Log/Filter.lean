import ProcEngine.Config.Setting
import ProcEngine.Log.Line
import ProcEngine.Log.Pattern
import ProcEngine.Text.Blank
import ProcEngine.Text.Pieces
/-!
# Log filters

A filter is a list of directives, separated by commas: a verbosity for everything, or a verbosity
for the targets that begin with a text, or for the lines that have a field. Of the directives that a
line meets the most specific one decides; a line that meets none is not shown. A directive without a
verbosity shows everything it is about.

A directive may also name a span of time between brackets. No line is ever logged inside one here,
so such a directive shows nothing.
-/

namespace ProcEngine.Log

/-- The lines that one directive of a filter is about, and the verbosity it allows them. -/
structure Rule where
  target : Option String := none
  field : Option String := none
  verbosity : Nat

structure Filter where
  rules : List Rule

inductive DirectiveError
  | malformed
  | verbosity
  /-- The value that a field is compared with is no pattern. -/
  | pattern
  /-- It has word boundaries, for which there is no matcher. -/
  | boundary

def DirectiveError.message : DirectiveError → String
  | malformed => "invalid filter directive"
  | pattern => "invalid field filter: error building NFA"
  | boundary =>
    "invalid field filter: unsupported regex feature for DFAs: " ++
      "cannot build DFAs for regexes with Unicode word boundaries; switch to " ++
      "ASCII word boundaries, or heuristically enable Unicode word boundaries or use " ++
      "a different regex engine"
  | verbosity =>
    "error parsing level filter: expected one of \"off\", \"error\", \"warn\", \"info\", " ++
      "\"debug\", \"trace\", or a number 0-5"

def everything : Nat := 5

/-! ### Reading -/

def verbosityNames : List (String × Nat) :=
  [("off", 0), ("error", 1), ("warn", 2), ("info", 3), ("debug", 4), ("trace", 5)]

/-- A verbosity by name, in letters of either case, or by number. -/
def verbosity? (s : String) : Option Nat :=
  match Setting.word? s with
  | some n => if n.toNat ≤ everything then some n.toNat else none
  | none => verbosityNames.lookup (Setting.lower s)

def verbosityAfter (cs : List Char) : Except DirectiveError Nat :=
  if cs.isEmpty then .ok everything
  else
    match verbosity? (String.ofList cs) with
    | some n => .ok n
    | none => .error .verbosity

/-- A directive that is one word: a verbosity if it can be one, else a target. -/
def Rule.ofWord (word : String) : Rule :=
  match verbosity? word with
  | some verbosity => { verbosity }
  | none => { target := some word, verbosity := everything }

def isLiteral (s : String) : Bool :=
  s == "true" || s == "false" || (Setting.word? s).isSome || (Setting.int? s).isSome ||
    (Setting.float? s).isSome

/-- Reads a field: its name, unless it is compared with a value, which then is a literal or a
pattern. Such a field is about spans, too. -/
def fieldName (field : List Char) : Except DirectiveError (Option String) :=
  match Text.cut '=' field with
  | (name, []) => .ok (some (String.ofList name))
  | (_, value :: _) =>
    if isLiteral (String.ofList value) || Pattern.isPattern false value then .ok none
    else .error (if Pattern.isPattern true value then .boundary else .pattern)

def isStart (c : Char) : Bool := Text.isWordChar c || c == '-' || c == ':' || c == '_' || c == '['

/-- The verbosity after a closing bracket. -/
def verbosityAtEnd (after : List Char → List Char) : List Char → Except DirectiveError Nat
  | [] => .ok everything
  | '=' :: rest => verbosityAfter (after rest)
  | _ => .error .malformed

/-- Reads one directive; `none` stands for one that is about spans. The parts are found with the
blanks around the directive taken away, and cut as many bytes from the start of the whole of it. -/
def directive (whole : List Char) : Except DirectiveError (Option Rule) := do
  let cs := Text.trim whole
  let offset (rest : List Char) := Text.byteLength cs - Text.byteLength rest
  let between (start stop : List Char) := Text.slice (offset start) (offset stop) whole
  let after (rest : List Char) := Text.slice (offset rest) (Text.byteLength whole) whole
  let name := cs.takeWhile fun c => c != '=' && c != '['
  let target :=
    if name.isEmpty then none else some (String.ofList (between cs (cs.drop name.length)))
  if !cs.head?.any isStart then throw .malformed
  match cs.drop name.length with
  | '=' :: rest => return some { target, verbosity := ← verbosityAfter (after rest) }
  | '[' :: span =>
    match span.dropWhile fun c => c != ']' && c != '\x7b' with
    | ']' :: rest => do
      let _ ← verbosityAtEnd after rest
      return none
    | '\x7b' :: field =>
      match field.dropWhile (· != '\x7d') with
      | '\x7d' :: rest => do
        if field.length = rest.length + 1 then throw .malformed
        let name ← fieldName (between field ('\x7d' :: rest))
        match rest with
        | ']' :: rest => do
          let verbosity ← verbosityAtEnd after rest
          return if span.head? = some '\x7b' then name.map fun f =>
            { target, field := some f, verbosity } else none
        | _ => throw .malformed
      | _ => throw .malformed
    | _ => throw .malformed
  | _ => return some (Rule.ofWord (String.ofList whole))

namespace Filter

def pieces (s : String) : List String := (Text.pieces ',' s).filter (· != "")

/-- Reads a filter in which no directive may be wrong. -/
def parse (s : String) : Except DirectiveError Filter := do
  return ⟨(← (pieces s).mapM fun piece => directive piece.toList).filterMap id⟩

/-- The filter of directives; without any, errors are shown. -/
def orErrors (directives : List (Option Rule)) : Filter :=
  if directives.isEmpty then ⟨[{ verbosity := Level.error.verbosity }]⟩
  else ⟨directives.filterMap id⟩

/-- Reads a filter, leaving out the directives that are wrong. These come back with what is
wrong. -/
def parseLenient (s : String) : Filter × List (String × DirectiveError) :=
  let read := (pieces s).map fun piece => (piece, directive piece.toList)
  (orErrors (read.filterMap fun r => r.2.toOption),
   read.filterMap fun
     | (piece, .error e) => some (piece, e)
     | (_, .ok _) => none)

end Filter

/-! ### Applying -/

/-- Whether a rule is about a line. Every line has its message as a field. -/
def Rule.covers (r : Rule) (l : Line) : Bool :=
  r.target.all (fun t => l.target.startsWith t) &&
    r.field.all fun f => f == "message" || l.fields.any fun g => g.1 == f

def Rule.reach (r : Rule) : Nat := (r.target.map String.length).getD 0

/-- Ranks the rules that are about one line: by the length of the target, then by the field. -/
def Rule.precedes (a b : Rule) : Bool :=
  a.reach < b.reach ||
    (a.reach = b.reach && match a.field, b.field with
      | none, _ => true
      | some _, none => false
      | some f, some g => !decide (g < f))

/-- The rule that decides about a line. Of two for the same target and field it is the later one. -/
def Filter.decisive (f : Filter) (l : Line) : Option Rule :=
  (f.rules.filter fun r => r.covers l).foldl (fun best r =>
    match best with
    | some b => if b.precedes r then some r else some b
    | none => some r) none

def Filter.shows (f : Filter) (l : Line) : Bool :=
  (f.decisive l).any fun r => l.level.verbosity ≤ r.verbosity

end ProcEngine.Log
