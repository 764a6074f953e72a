import ProcEngine.Proc
import ProcEngine.Script.Frame
/-!
# Contexts

A context is one thread of cooperative execution: a stack of activations, the innermost first, of
which only the innermost runs. The others wait for what it returns.
-/

namespace ProcEngine

inductive Wait
  | ticks (n : UInt64)
  | external
  deriving DecidableEq

structure RoutineFrame where
  passThrough : Bool
  /-- `none` until the arguments are bound, then what goes on once the pause is over. -/
  rest : Option (Value → Routine) := none
  start : Invocation → Value → Routine
  /-- What the proc called during the pause has returned. -/
  returned : Option Value := none

inductive Frame
  | script (f : ScriptFrame)
  | handler (run : Handler)
  | routine (f : RoutineFrame)

def Body.frame : Body → Frame
  | .script code locals => .script { code, extra := locals }
  | .handler run => .handler run
  | .routine passThrough start => .routine { passThrough, start }

structure Activation where
  context : ContextId
  proc : ProcRef
  signature : Signature
  invocation : Invocation
  /-- What the activation would return if it ended now. -/
  result : Value := .null
  frame : Frame

namespace Activation

def src (a : Activation) : Option ObjectRef := a.invocation.src

def usr (a : Activation) : Option ObjectRef := a.invocation.usr

/-- The next instruction, and the activation moved past it. -/
def fetch (a : Activation) : Option Instr × Activation :=
  match a.frame with
  | .script f =>
    if f.locals.isSome then (f.fetch.1, { a with frame := .script f.fetch.2 }) else (none, a)
  | _ => (none, a)

/-- Hands over what a called proc returned. -/
def receive (a : Activation) (v : Value) : Activation :=
  match a.frame with
  | .script f => { a with frame := .script (f.receive v) }
  | .routine f => { a with frame := .routine { f with returned := some v } }
  | .handler _ => a

def position (a : Activation) : Position :=
  match a.frame with
  | .script f => .instruction (f.position - 1)
  | .handler _ => .native
  | .routine _ => .suspendable

def traceLine (a : Activation) : TraceLine := ⟨a.proc.name, a.position⟩

end Activation

inductive ContextState
  | ready
  | deferred (w : Wait)
  | returned
  | faulted (why : Fault)
  deriving DecidableEq

/-- What is recorded of contexts as time goes on. -/
inductive Milestone
  | created (c : ContextId)
  /-- The scheduler has taken the context up again. -/
  | resumed (c : ContextId)
  | stopped (c : ContextId) (s : ContextState)
  /-- The scheduler has put the context to sleep. -/
  | filed (c : ContextId) (wakeAt : UInt64)
  /-- The completion of the context is run. -/
  | completed (c : ContextId) (v : Value)
  | ticked (t : UInt64)
  deriving DecidableEq

structure Context where
  id : ContextId
  maxDepth : Nat
  stack : List Activation := []
  state : ContextState := .ready

namespace Context

def isFinished (c : Context) : Bool :=
  match c.state with
  | .returned | .faulted _ => true
  | .ready | .deferred _ => false

def trace (c : Context) : List TraceLine := c.stack.map Activation.traceLine

inductive Push
  | pushed (c : Context)
  | overflow (why : Fault)
  | foreign (why : Breach)

/-- Pushes an activation that was created for this context. -/
def push (c : Context) (a : Activation) : Push :=
  if a.context ≠ c.id then .foreign (.foreignActivation a.proc.name)
  else if c.maxDepth ≤ c.stack.length then .overflow (.stackOverflow c.maxDepth)
  else .pushed { c with stack := a :: c.stack }

end Context

def traceText (trace : List TraceLine) : String :=
  String.join (trace.map fun l => "   " ++ l.text ++ "\n")

end ProcEngine
