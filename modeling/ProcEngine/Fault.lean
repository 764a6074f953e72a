import ProcEngine.Handle
import ProcEngine.Kind
import ProcEngine.Text.Quoted
/-!
# Faults

Everything that can go wrong while script code runs. A fault never leaves the context it is raised
in as a value: the context is aborted and the fault is reported. `Breach` is the other kind of
trouble. It breaks off on the spot whatever the host has asked for, the contexts that are running
included, and nothing is reported.
-/

namespace ProcEngine

inductive Operator
  | add
  | sub
  | mul
  deriving DecidableEq

def Operator.symbol : Operator → String
  | add => "+"
  | sub => "-"
  | mul => "*"

/-- Why a value does not fit where it is used. -/
inductive Mismatch
  | notANumber (found : Kind)
  | operands (op : Operator) (lhs rhs : Kind)
  | comparison (lhs rhs : Kind)
  /-- `parameter` is `none` where kinds are declared beyond the last parameter. -/
  | argument (parameter : Option String) (proc : String) (found : Kind)
  deriving DecidableEq

def Mismatch.message : Mismatch → String
  | notANumber k => s!"expected a number, got {k.name}"
  | operands op l r => s!"invalid operation: {l.name} {op.symbol} {r.name}"
  | comparison l r => s!"cannot compare {l.name} with {r.name}"
  | argument (some p) proc k => s!"argument '{p}' of '{proc}' does not accept {k.name}"
  | argument none proc k => s!"argument '?' of '{proc}' does not accept {k.name}"

inductive CodeDefect
  | underflow (position : Nat)
  | missingArguments (wanted present : Nat)
  | slotOutOfRange (slot : Nat)
  deriving DecidableEq

def CodeDefect.message : CodeDefect → String
  | underflow p => s!"operand stack underflow at {p}"
  | missingArguments w p => s!"call with {w} arguments but only {p} on the stack"
  | slotOutOfRange s => s!"local slot {s} out of range"

inductive Fault
  | unknownVariable (owner name : String)
  | unknownProc (owner name : String)
  | unknownType (path : String)
  | unknownArgument (proc name : String)
  | typeMismatch (why : Mismatch)
  | stackOverflow (depth : Nat)
  | deletedObject (object : ObjectRef)
  | notAnObject (found : Kind)
  | malformedCode (why : CodeDefect)
  /-- A hook refused what it was asked about. -/
  | hook (why : String)
  /-- A native proc gave up. -/
  | native (proc why : String)
  /-- Raised by script code. -/
  | script (text : String)
  deriving DecidableEq

namespace Fault

def message : Fault → String
  | unknownVariable owner name => s!"undefined variable '{name}' on {owner}"
  | unknownProc owner name => s!"undefined proc '{name}' on {owner}"
  | unknownType path => s!"undefined type '{path}'"
  | unknownArgument proc name => s!"proc '{proc}' has no argument named '{name}'"
  | typeMismatch why => s!"type mismatch: {why.message}"
  | stackOverflow depth => s!"stack overflow: call depth exceeded {depth}"
  | deletedObject object => s!"reference to deleted object {object.text}"
  | notAnObject found => s!"expected an object, got {found.name}"
  | malformedCode why => s!"malformed proc code: {why.message}"
  | hook why => s!"meta object hook failed: {why}"
  | native proc why => s!"native proc '{proc}' failed: {why}"
  | script text => text

def kindName : Fault → String
  | unknownVariable .. => "UnknownVariable"
  | unknownProc .. => "UnknownProc"
  | unknownType .. => "UnknownType"
  | unknownArgument .. => "UnknownArgument"
  | typeMismatch .. => "TypeMismatch"
  | stackOverflow .. => "StackOverflow"
  | deletedObject .. => "DeletedObject"
  | notAnObject .. => "NotAnObject"
  | malformedCode .. => "MalformedCode"
  | hook .. => "Hook"
  | native .. => "Native"
  | script .. => "Script"

/-- `Name(x)`, for a fault with one unnamed part. -/
def single (name inner : String) : String := s!"{name}({inner})"

/-- `Name { field: x, … }`, for a fault with named parts. -/
def fields (name : String) (parts : List (String × String)) : String :=
  name ++ " \x7b " ++ ", ".intercalate (parts.map fun p => p.1 ++ ": " ++ p.2) ++ " \x7d"

/-- The fault with all its parts spelled out, as a dump shows it. -/
def details (f : Fault) : String :=
  match f with
  | unknownVariable owner name | unknownProc owner name =>
    fields f.kindName [("owner", Text.quoted owner), ("name", Text.quoted name)]
  | unknownArgument proc name =>
    fields f.kindName [("proc_name", Text.quoted proc), ("name", Text.quoted name)]
  | native proc why =>
    fields f.kindName [("proc_name", Text.quoted proc), ("message", Text.quoted why)]
  | stackOverflow depth => fields f.kindName [("depth", toString depth)]
  | deletedObject object =>
    single f.kindName (fields "ObjectRef"
      [("index", toString object.index.toNat), ("generation", toString object.generation.toNat)])
  | notAnObject found => single f.kindName (Text.quoted found.name)
  | typeMismatch why => single f.kindName (Text.quoted why.message)
  | malformedCode why => single f.kindName (Text.quoted why.message)
  | unknownType text | hook text | script text => single f.kindName (Text.quoted text)

end Fault

/-- A context is used against its rules, or a number leaves the range that it is counted in. -/
inductive Breach
  | emptyContext (context : ContextId)
  | foreignActivation (proc : String)
  | addOverflow
  | subOverflow
  /-- More room is asked for than can be addressed. -/
  | capacityOverflow
  deriving DecidableEq

namespace Breach

def message : Breach → String
  | emptyContext c => s!"{c.text}: resumed with an empty stack and no final value"
  | foreignActivation proc => s!"activation of '{proc}' was created for another context"
  | addOverflow => "attempt to add with overflow"
  | subOverflow => "attempt to subtract with overflow"
  | capacityOverflow => "capacity overflow"

/-- Whether a number has left its range, and no rule of contexts been broken. -/
def isOverflow : Breach → Bool
  | emptyContext _ | foreignActivation _ => false
  | addOverflow | subOverflow | capacityOverflow => true

end Breach

end ProcEngine
