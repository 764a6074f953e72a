import ProcEngine.Value
/-!
# Events

What an engine tells the world outside, in order of happening: reports of faults, lines that script
code logs, and the notes that hooks, native procs and completions of the host leave.
-/

namespace ProcEngine

inductive Position
  | instruction (index : Nat)
  | native
  | suspendable
  deriving DecidableEq

structure TraceLine where
  proc : String
  position : Position
  deriving DecidableEq

def Position.text : Position → String
  | instruction i => s!"(instruction {i})"
  | native => "(native)"
  | suspendable => "(native, suspendable)"

def TraceLine.text (l : TraceLine) : String := s!"{l.proc} {l.position.text}"

inductive Event
  /-- A context was aborted while `trace.length` activations, innermost first, were on its stack. -/
  | fault (context : ContextId) (why : Fault) (trace : List TraceLine)
  | worldLine (line : String) (src : Option ObjectRef)
  | native (v : Value)
  | created (o : ObjectRef) (argc : Nat)
  | read (o : ObjectRef) (name : String) (v : Value)
  | written (o : ObjectRef) (name : String) (v old : Value)
  | deleted (o : ObjectRef) (live : Nat)
  | allocated (o : ObjectRef)
  | completed (label : String) (v : Value)
  | followed (proc : String) (v : Value)
  deriving DecidableEq

/-- Whether an event is the engine's to tell: a report of a fault. -/
def Event.isReport : Event → Bool
  | fault .. => true
  | _ => false

end ProcEngine
