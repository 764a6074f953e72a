import ProcEngine.Runtime
/-!
# Execution

One step of a context is one instruction of a script, or one stretch of host code up to its next
pause. `Context.run` repeats steps until the context stops: because its last activation returned,
because the innermost one waits for something, or because of a fault, which ends the context and is
reported instead of being handed to anyone.

Host code may call procs in contexts of their own. Running those is the parameter `drive` of
everything here but `Context.run`, which passes itself with less fuel.
-/

namespace ProcEngine

inductive Signal
  | proceed
  | returned
  | deferred (w : Wait)
  | called (callee : Activation)

/-- Resumes a context: the value it stops with and what is left of it. -/
abbrev Drive := Context → Act Runtime (Value × Context)

abbrev Serve := (r : HostRequest) → Act Runtime r.Answer

namespace Runtime

def onStore {α : Type} (x : Act Store α) : Act Runtime α := fun rt =>
  let store := rt.store
  let rt := { rt with store := {} }
  match x store with
  | .ok a s => .ok a { rt with store := s }
  | .fault e s => .fault e { rt with store := s }
  | .breach b s => .breach b { rt with store := s }
  | .exhausted => .exhausted

def recording (m : Milestone) : Act Runtime Unit := fun rt => .ok () (rt.record m)

def ask {α : Type} (f : Runtime → Except Fault α) : Act Runtime α := fun rt =>
  match f rt with
  | .ok a => .ok a rt
  | .error e => .fault e rt

def enter (p : ProcRef) (context : ContextId) (i : Invocation) : Act Runtime Activation := fun rt =>
  let (a, rt) := rt.activate p context i
  .ok a rt

/-- Runs a proc in a fresh context until it returns or stops on the way; then the context is
detached. -/
def callWith (drive : Drive) (p : ProcRef) (i : Invocation) : Act Runtime Value := fun rt =>
  let (c, rt) := rt.newContext
  let (a, rt) := rt.activate p c.id i
  match c.push a with
  | .foreign b => .breach b rt
  | .overflow why => .ok .null ((rt.abort c why).2.record (.stopped c.id (.faulted why)))
  | .pushed c =>
    match drive c rt with
    | .ok (v, c) rt =>
      let rt := rt.record (.stopped c.id c.state)
      .ok v (if c.isFinished then rt else rt.detach c)
    | .fault e rt => .fault e rt
    | .breach b rt => .breach b rt
    | .exhausted => .exhausted

/-- Creates an object and constructs it in a fresh context. Whatever becomes of the construction,
the object is there. -/
def constructWith (fuel : Nat) (drive : Drive) (path : String) (arguments : Arguments)
    (usr : Option ObjectRef) :
    Act Runtime ObjectRef := do
  let object ← onStore (Store.serve fuel (.allocate path))
  let _ ← callWith drive init { src := some object, usr, arguments }
  return object

def serve (fuel : Nat) (drive : Drive) : Serve
  | .table r => onStore (Store.serve fuel r)
  | .global name => ask fun rt => rt.global name
  | .method o name => ask fun rt => rt.objects.proc o name
  | .method? o name => ask fun rt => rt.objects.proc? o name
  | .call p i => callWith drive p i
  | .construct path arguments usr => constructWith fuel drive path arguments usr
  | .initializer o => ask fun rt => (rt.objects.definition o).map Definition.initializer
  | .created o arguments => do
    let d ← ask fun rt => rt.objects.definition o
    match d.hooks with
    | none => return true
    | some hooks =>
      onStore ((hooks.created o arguments).run (Store.serve fuel))
      return hooks.callsNew

end Runtime

/-- Where a routine pauses, and how it goes on. -/
inductive Pause
  | finished (v : Value)
  | invoke (p : ProcRef) (i : Invocation) (rest : Value → Routine)
  | sleep (ticks : UInt64) (rest : Value → Routine)
  | wait (rest : Value → Routine)

/-- Runs a routine up to its next pause. -/
def Routine.advance (serve : Serve) : Routine → Act Runtime Pause
  | .done v, rt => .ok (.finished v) rt
  | .fail e, rt => .fault e rt
  | .ask (.host r) next, rt =>
    match serve r rt with
    | .ok answer rt => advance serve (next (.ok answer)) rt
    | .fault e rt => advance serve (next (.error e)) rt
    | .breach b rt => .breach b rt
    | .exhausted => .exhausted
  | .ask (.invoke p i) next, rt => .ok (.invoke p i fun v => next (.ok v)) rt
  | .ask (.sleep ticks) next, rt => .ok (.sleep ticks fun v => next (.ok v)) rt
  | .ask .wait next, rt => .ok (.wait fun v => next (.ok v)) rt

namespace Activation

def bind (a : Activation) : Except Fault (List Value) := a.invocation.arguments.bind a.signature

/-- The proc's invocation with its arguments laid out in parameter order. -/
def bound (a : Activation) : Except Fault Invocation :=
  a.bind.map fun values => { a.invocation with arguments := { positional := values } }

def withFrame (a : Activation) (f : Frame) : Activation := { a with frame := f }

def withResult (a : Activation) (v : Value) : Activation := { a with result := v }

def call (a : Activation) (p : ProcRef) (i : Invocation) : Act Runtime (Activation × Signal) := do
  return (a, .called (← Runtime.enter p a.context i))

/-- Does what a script instruction asks for. Calls keep the acting user. -/
def meet (fuel : Nat) (a : Activation) : Demand → Act Runtime (Activation × Signal)
  | .proceed => return (a, .proceed)
  | .result v => return (a.withResult v, .proceed)
  | .read o name => do
    let v ← Runtime.onStore (Store.serve fuel (.read o name))
    return (a.receive v, .proceed)
  | .write o name v => do
    Runtime.onStore (Store.serve fuel (.write o name v))
    return (a, .proceed)
  | .delete o => do
    Runtime.onStore (Store.serve fuel (.delete o))
    return (a, .proceed)
  | .call name args => do
    let p ← Runtime.ask fun rt => rt.global name
    a.call p { usr := a.usr, arguments := { positional := args } }
  | .callMethod o name args => do
    let p ← Runtime.ask fun rt => rt.objects.proc o name
    a.call p { src := some o, usr := a.usr, arguments := { positional := args } }
  | .callSuper args => do
    match (← Act.get).proc a.proc |>.overridden with
    | some p => a.call p { src := a.src, usr := a.usr, arguments := { positional := args } }
    | none => Act.raise (.unknownProc a.proc.name "..")
  | .construct path args => do
    let o ← Runtime.onStore (Store.serve fuel (.allocate path))
    a.call Runtime.init { src := some o, usr := a.usr, arguments := { positional := args } }
  | .sleep ticks => return (a, .deferred (.ticks ticks))
  | .finish v => return (a.withResult v, .returned)

/-- Runs one instruction of a script, none if the code has come to its end. The arguments are bound,
and the slots laid out, by a step of their own. -/
def stepScript (fuel : Nat) (a : Activation) (f : ScriptFrame) (instr : Option Instr) :
    Act Runtime (Activation × Signal) :=
  match f.locals with
  | none => do
    let values ← a.bind
    Act.need (f.HasRoom values) (f.shortage values)
    return (a.withFrame (.script (f.start values)), .proceed)
  | some _ =>
    match instr with
    | none => return (a, .returned)
    | some i => do
      let (demand, f) ← f.exec a.src a.usr i
      (a.withFrame (.script f)).meet fuel demand

/-- What a routine goes on with, given what was returned to it. On its first step it is started. -/
def resumption (a : Activation) (f : RoutineFrame) : Except Fault Routine :=
  let returned := f.returned.getD .null
  match f.rest with
  | some rest => .ok (rest returned)
  | none =>
    if f.passThrough then .ok (f.start a.invocation returned) else a.bound.map fun i =>
      f.start i returned

def stepRoutine (serve : Serve) (a : Activation) (f : RoutineFrame) :
    Act Runtime (Activation × Signal) := do
  let routine ← a.resumption f
  let paused (rest : Value → Routine) :=
    a.withFrame (.routine { f with rest := some rest, returned := none })
  match ← routine.advance serve with
  | .finished v => return (a.withResult v, .returned)
  | .invoke p i rest => (paused rest).call p i
  | .sleep ticks rest => return (paused rest, .deferred (.ticks ticks))
  | .wait rest => return (paused rest, .deferred .external)

def step (fuel : Nat) (drive : Drive) (a : Activation) (instr : Option Instr) :
    Act Runtime (Activation × Signal) :=
  match a.frame with
  | .script f => a.stepScript fuel f instr
  | .handler run => do
    let v ← (run (← a.bound)).run (Runtime.serve fuel drive)
    return (a.withResult v, .returned)
  | .routine f => a.stepRoutine (Runtime.serve fuel drive) f

end Activation

namespace Context

inductive Progress
  | running (c : Context)
  | stopped (v : Value) (c : Context)

/-- Ends the context with a fault; nobody gets a value. -/
def fail (c : Context) (why : Fault) : Act Runtime Progress := fun rt =>
  let (c, rt) := rt.abort c why
  .ok (.stopped .null c) rt

/-- Acts on what the innermost activation did. -/
def proceed (c : Context) (top : Activation) (callers : List Activation) : Signal →
    Act Runtime Progress
  | .proceed => return .running { c with stack := top :: callers }
  | .returned =>
    match callers with
    | [] => return .stopped top.result { c with stack := [], state := .returned }
    | caller :: rest => return .running { c with stack := caller.receive top.result :: rest }
  | .deferred w =>
    return .stopped top.result { c with stack := top :: callers, state := .deferred w }
  | .called callee =>
    match { c with stack := top :: callers }.push callee with
    | .pushed c => return .running c
    | .overflow why => { c with stack := top :: callers }.fail why
    | .foreign b => fun rt => .breach b rt

def step (fuel : Nat) (drive : Drive) (c : Context) : Act Runtime Progress := fun rt =>
  match c.stack with
  | [] => .breach (.emptyContext c.id) rt
  | top :: callers =>
    let (instr, top) := top.fetch
    match top.step fuel drive instr rt with
    | .ok (top, signal) rt => c.proceed top callers signal rt
    | .fault why rt => { c with stack := top :: callers }.fail why rt
    | .breach b rt => .breach b rt
    | .exhausted => .exhausted

/-- Runs an unfinished context until it stops. -/
def run : (fuel : Nat) → Drive
  | 0, _, _ => .exhausted
  | fuel + 1, c, rt =>
    match c.step fuel (run fuel) rt with
    | .ok (.running c) rt => run fuel c rt
    | .ok (.stopped v c) rt => .ok (v, c) rt
    | .fault e rt => .fault e rt
    | .breach b rt => .breach b rt
    | .exhausted => .exhausted

/-- Resumes a context. One that is finished gives null and does nothing. -/
def resume (fuel : Nat) (c : Context) : Act Runtime (Value × Context) :=
  if c.isFinished then return (.null, c) else c.run fuel

end Context

namespace Runtime

/-- Runs a proc in a fresh context. If it stops on the way, the value is only what it would have
returned so far, and the context goes on once a scheduler adopts it. -/
def call (fuel : Nat) (p : ProcRef) (i : Invocation) : Act Runtime Value :=
  callWith (Context.resume fuel) p i

def callOn (fuel : Nat) (o : ObjectRef) (name : String) (arguments : Arguments)
    (usr : Option ObjectRef) :
    Act Runtime Value := do
  let p ← ask fun rt => rt.objects.proc o name
  call fuel p { src := some o, usr, arguments }

def newObject (fuel : Nat) (path : String) (arguments : Arguments) (usr : Option ObjectRef) :
    Act Runtime ObjectRef :=
  constructWith fuel (Context.resume fuel) path arguments usr

def perform {α : Type} (fuel : Nat) (program : Program HostCalls α) : Act Runtime α :=
  program.run (serve fuel (Context.resume fuel))

end Runtime

end ProcEngine
