import ProcEngine.Execution
/-!
# The scheduler

The scheduler owns the contexts that stopped and resumes them. Time is a count of ticks. A sleeper
is due when the count has reached its wake-up tick, at least one tick after it was filed; sleepers
that are due together are resumed in the order in which they were filed. A context that waits for
the outside is resumed by `wake` alone. Contexts that stopped under a call made from the outside or
from host code are adopted after every resumption and at the start of every tick, and sleep from
then on.

The count has 64 bits. A sleep can be asked for that they do not reach to the end of; it breaks off
whatever would file it. The count itself goes up by one at a time, and is not followed beyond its
range. What a breach leaves of the scheduler is not told.
-/

namespace ProcEngine

/-- What is done with the final value of a context, null if it ended with a fault. -/
abbrev Completion := Value → Program HostCalls Unit

/-- Runs the completion of a context. Nobody is there to be told of a fault in it. -/
def Completion.run (fuel : Nat) (completion : Completion) (id : ContextId) (v : Value) :
    Act Runtime Unit := fun rt =>
  match Runtime.perform fuel (completion v) (rt.record (.completed id v)) with
  | .fault _ rt => .ok () rt
  | outcome => outcome

structure Parked where
  context : Context
  completion : Option Completion := none

/-- An entry of the queue: when to wake which context. `order` counts the entries ever made. -/
structure Sleeper where
  wakeAt : UInt64
  order : Nat
  context : ContextId
  deriving DecidableEq

def Sleeper.before (a b : Sleeper) : Bool :=
  a.wakeAt < b.wakeAt || (a.wakeAt == b.wakeAt && a.order < b.order)

structure Scheduler where
  tick : UInt64 := 0
  /-- How many sleepers have been filed. -/
  filed : Nat := 0
  parked : Std.ExtTreeMap ContextId Parked := ∅
  /-- The next one to wake first. -/
  sleepers : List Sleeper := []

namespace Scheduler

def pending (s : Scheduler) : Nat := s.parked.size

def isIdle (s : Scheduler) : Bool := s.parked.isEmpty

def isParked (s : Scheduler) (id : ContextId) : Bool := s.parked.contains id

def hasSleepers (s : Scheduler) : Bool := !s.sleepers.isEmpty

/-- Adds an entry behind those that come before it. -/
def enqueue (entry : Sleeper) : List Sleeper → List Sleeper
  | [] => [entry]
  | first :: rest =>
    if first.before entry then first :: enqueue entry rest else entry :: first :: rest

/-- The tick at which a context is due that goes to sleep for `ticks`, as a number without bound. -/
def due (s : Scheduler) (ticks : UInt64) : Nat := s.tick.toNat + max ticks.toNat 1

def file (s : Scheduler) (p : Parked) : Scheduler :=
  { s with parked := s.parked.insert p.context.id p }

/-- Files a context as the state it stopped in demands; the completion of a finished one is run with
`v`, the value that it stopped with. -/
def park (fuel : Nat) (s : Scheduler) (p : Parked) (v : Value) : Act Runtime Scheduler :=
  match p.context.state with
  | .deferred (.ticks n) => do
    Act.need (s.due n < UInt64.size) .addOverflow
    let wakeAt := UInt64.ofNat (s.due n)
    Runtime.recording (.filed p.context.id wakeAt)
    return { s.file p with
      filed := s.filed + 1
      sleepers := enqueue ⟨wakeAt, s.filed + 1, p.context.id⟩ s.sleepers }
  | .deferred .external => return s.file p
  | .ready | .returned | .faulted _ =>
    match p.completion with
    | some completion => do
      completion.run fuel p.context.id v
      return s
    | none => return s

def parkAll (fuel : Nat) (s : Scheduler) : List Context → Act Runtime Scheduler
  | [] => return s
  | c :: rest => do parkAll fuel (← s.park fuel { context := c } .null) rest

def adopt (fuel : Nat) (s : Scheduler) : Act Runtime Scheduler := do
  let (contexts, rt) := (← Act.get).takeDetached
  Act.set rt
  s.parkAll fuel contexts

def drive (fuel : Nat) (s : Scheduler) (p : Parked) : Act Runtime Scheduler := do
  let (v, c) ← p.context.resume fuel
  Runtime.recording (.stopped c.id c.state)
  let s ← s.park fuel { p with context := c } v
  s.adopt fuel

/-- Takes up a context again that was parked. -/
def rouse (fuel : Nat) (s : Scheduler) (p : Parked) : Act Runtime Scheduler := do
  Runtime.recording (.resumed p.context.id)
  { s with parked := s.parked.erase p.context.id }.drive fuel p

/-- Starts a proc in a new context without waiting for it. If it does not stop on the way, its
completion has run when this returns. -/
def callAsync (fuel : Nat) (s : Scheduler) (p : ProcRef) (i : Invocation)
    (completion : Option Completion) :
    Act Runtime (ContextId × Scheduler) := do
  let (c, rt) := (← Act.get).newContext
  let (a, rt) := rt.activate p c.id i
  Act.set rt
  match c.push a with
  | .foreign b => fun rt => .breach b rt
  | .overflow why =>
    Act.set ((rt.abort c why).2.record (.stopped c.id (.faulted why)))
    if let some completion := completion then completion.run fuel c.id .null
    return (c.id, s)
  | .pushed c => return (c.id, ← s.drive fuel { context := c, completion })

def spawn (fuel : Nat) (s : Scheduler) (p : ProcRef) (i : Invocation) :
    Act Runtime (ContextId × Scheduler) :=
  s.callAsync fuel p i none

/-- Resumes the sleepers that are due, and counts them. -/
def resumeDue : (fuel : Nat) → Scheduler → (resumed : Nat) → Act Runtime (Nat × Scheduler)
  | 0, _, _ => fun _ => .exhausted
  | fuel + 1, s, resumed =>
    match s.sleepers with
    | [] => return (resumed, s)
    | first :: rest =>
      if s.tick < first.wakeAt then return (resumed, s)
      else
        match s.parked[first.context]? with
        | none => resumeDue fuel { s with sleepers := rest } resumed
        | some p => do
          let s ← { s with sleepers := rest }.rouse fuel p
          resumeDue fuel s (resumed + 1)

/-- Moves time on by one tick and resumes every sleeper that is due. -/
def advance (fuel : Nat) (s : Scheduler) : Act Runtime (Nat × Scheduler) := do
  let s ← s.adopt fuel
  Runtime.recording (.ticked (s.tick + 1))
  resumeDue fuel { s with tick := s.tick + 1 } 0

def isWaiting (s : Scheduler) (id : ContextId) : Bool :=
  match s.parked[id]? with
  | some p => p.context.state = .deferred .external
  | none => false

/-- Resumes a context that waits for the outside; says whether there was one. -/
def wake (fuel : Nat) (s : Scheduler) (id : ContextId) : Act Runtime (Bool × Scheduler) :=
  match s.parked[id]? with
  | some p =>
    if p.context.state = .deferred .external then do
      return (true, ← s.rouse fuel p)
    else return (false, s)
  | none => return (false, s)

def details (s : Scheduler) : String :=
  Fault.fields "Scheduler"
    [("tick", toString s.tick), ("parked", toString s.pending),
      ("sleepers", toString s.sleepers.length)]

end Scheduler

end ProcEngine
