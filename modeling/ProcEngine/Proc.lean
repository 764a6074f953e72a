import ProcEngine.Object.Definition
import ProcEngine.Script.Code
/-!
# Procs

A proc is a name, a signature and a body. A body is script code, a handler of the host that runs to
its end at once, or a routine of the host that may stop on the way: to call another proc in the same
context, to sleep, or to wait for the outside. Both kinds of host code are programs over the
requests given here.

What host code does goes by its invocation and by the answers that it gets. Left out is code that
keeps a state of its own from one activation to the next, other than in objects, and code that adds
procs, types or global names while it runs. A host may add these between its operations. No step of
an activation depends on where the procs and types of its runtime come from, so that what is proved
of single steps, for any runtime and any program that is left to run, says the same of a step of
such code.
-/

namespace ProcEngine

structure Invocation where
  src : Option ObjectRef := none
  usr : Option ObjectRef := none
  arguments : Arguments := {}

/-- What host code may ask of the engine. -/
inductive HostRequest
  | table (r : TableRequest)
  | global (name : String)
  | method (o : ObjectRef) (name : String)
  /-- A proc of the object, if it has one of that name. -/
  | method? (o : ObjectRef) (name : String)
  /-- Runs a proc in a context of its own, until it returns or stops on the way. -/
  | call (p : ProcRef) (i : Invocation)
  /-- Creates and constructs an object, in a context of its own. -/
  | construct (path : String) (arguments : Arguments) (usr : Option ObjectRef)
  /-- The initializer of the object's type. -/
  | initializer (o : ObjectRef)
  /-- Runs the hook for an object just created and says whether its constructor is wanted. -/
  | created (o : ObjectRef) (arguments : Arguments)

def HostRequest.Answer : HostRequest → Type
  | table r => r.Answer
  | global _ => ProcRef
  | method .. => ProcRef
  | method? .. => Option ProcRef
  | call .. => Value
  | construct .. => ObjectRef
  | initializer _ => Option ProcRef
  | created .. => Bool

abbrev HostCalls : Interface := ⟨HostRequest, HostRequest.Answer⟩

/-- What a routine may ask for: what any host code may, and to be suspended. -/
inductive RoutineRequest
  | host (r : HostRequest)
  /-- Calls a proc in the same context; the answer is what it returns. -/
  | invoke (p : ProcRef) (i : Invocation)
  | sleep (ticks : UInt64)
  | wait

/-- A sleep and a wait are answered with null. -/
def RoutineRequest.Answer : RoutineRequest → Type
  | host r => r.Answer
  | invoke .. => Value
  | sleep _ => Value
  | wait => Value

abbrev RoutineCalls : Interface := ⟨RoutineRequest, RoutineRequest.Answer⟩

abbrev Handler := Invocation → Program HostCalls Value

abbrev Routine := Program RoutineCalls Value

inductive Body
  /-- `locals` null slots follow the bound arguments. -/
  | script (code : Array Instr) (locals : UInt64)
  | handler (run : Handler)
  /-- A routine that passes its arguments through gets them as they were passed, unbound. It also
  gets the value that an activation on top of its own has returned before it was started, else
  null. -/
  | routine (passThrough : Bool) (start : Invocation → Value → Routine)

structure Proc where
  signature : Signature
  body : Body
  /-- The proc that this one overrides. It is set at most once. -/
  overridden : Option ProcRef := none
  /-- A name under which the host wants to find the context of the latest activation. -/
  mark : Option String := none

def Proc.name (p : Proc) : String := p.signature.name

def Proc.header (p : Proc) : String :=
  let overridden := match p.overridden with
    | some o => s!"Some({Text.quoted o.name})"
    | none => "None"
  Fault.fields "ProcHeader"
    [("name", Text.quoted p.name), ("super_proc", overridden),
     ("argument_names", Text.bracketed (p.signature.params.map Text.quoted))]

/-- The proc spelled out; of host code only the header can be shown. -/
def Proc.details (p : Proc) : String :=
  match p.body with
  | .script code locals =>
    Fault.fields "ScriptProc"
      [("header", p.header), ("code", Text.bracketed (code.toList.map Instr.details)),
        ("locals", toString locals)]
  | .handler _ => "NativeProc \x7b header: " ++ p.header ++ ", .. \x7d"
  | .routine .. => "AsyncNativeProc \x7b header: " ++ p.header ++ ", .. \x7d"

end ProcEngine
