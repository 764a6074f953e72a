import ProcEngine.Object.Store
/-!
# The ideal object store

What the object table is meant to be: a store that only knows what has been done to objects. Nothing
in it is freed or overwritten. Whether an object is alive, what it is and what its variables hold is
read off the deeds, and an object that has been destroyed stays destroyed.

Its objects are told apart by a name that each is given when it is made, `name k` being the name of
the `k`-th. The hooks are those of the table.
-/

namespace ProcEngine

/-! ### Reading the deeds

The latest deed comes first. -/

namespace History

/-- The objects ever made, the latest first. -/
def made : List Deed → List ObjectRef
  | [] => []
  | .made o _ :: h => o :: made h
  | _ :: h => made h

def destroyed : List Deed → List ObjectRef
  | [] => []
  | .destroyed o :: h => o :: destroyed h
  | _ :: h => destroyed h

def living (h : List Deed) : List ObjectRef := (made h).filter (· ∉ destroyed h)

def definition? (o : ObjectRef) : List Deed → Option Definition
  | [] => none
  | .made o' d :: h => if o' = o then some d else definition? o h
  | _ :: h => definition? o h

/-- The value last assigned to a variable. -/
def assigned? (o : ObjectRef) (name : String) : List Deed → Option Value
  | [] => none
  | .assigned o' name' v :: h => if o' = o ∧ name' = name then some v else assigned? o name h
  | _ :: h => assigned? o name h

/-- The objects that have been asked for their reference id, in the order in which they first
were. -/
def numbered : List Deed → List ObjectRef
  | [] => []
  | .numbered o :: h => if o ∈ numbered h then numbered h else numbered h ++ [o]
  | _ :: h => numbered h

/-- The objects whose deletion has begun and is not over, the innermost first. -/
def dying : List Deed → List ObjectRef
  | [] => []
  | .condemned o :: h => o :: dying h
  | .spared o :: h | .destroyed o :: h => (dying h).erase o
  | _ :: h => dying h

/-- An object has been deleted from inside the hook of its own deletion, directly or not. -/
def Reentrant : List Deed → Prop
  | [] => False
  | .condemned o :: h => o ∈ dying h ∨ Reentrant h
  | _ :: h => Reentrant h

/-- How many objects in a slot have been destroyed. -/
def timesFreed (index : UInt32) (h : List Deed) : Nat :=
  (destroyed h).countP fun o => o.index = index

end History

open History

structure Ideal where
  types : Names Definition
  deeds : List Deed := []
  journal : Array Event := #[]

namespace Ideal

def record (d : Deed) : Act Ideal Unit := fun i => .ok () { i with deeds := d :: i.deeds }

def note (e : Event) : Act Ideal Unit := fun i =>
  .ok () (if e.isReport then i else { i with journal := i.journal.push e })

def definition (o : ObjectRef) : Act Ideal Definition := fun i =>
  match if o ∈ living i.deeds then definition? o i.deeds else none with
  | some d => .ok d i
  | none => .fault (.deletedObject o) i

/-- A variable is what was last assigned to it, or the default of the object's type. -/
def stored (o : ObjectRef) (name : String) : Act Ideal (Definition × Value) := do
  let d ← definition o
  match assigned? o name (← Act.get).deeds <|> d.vars[name]? with
  | some v => return (d, v)
  | none => Act.raise (.unknownVariable d.path name)

def serveRead (read : ObjectRef → String → Act Ideal Value) : (r : ReadRequest) → Act Ideal r.Answer
  | .read o name => read o name
  | .note e => note e

def read : (fuel : Nat) → ObjectRef → String → Act Ideal Value
  | 0, _, _ => fun _ => .exhausted
  | fuel + 1, o, name => do
    let (d, v) ← stored o name
    match d.hooks with
    | none => return v
    | some hooks => (hooks.read o name v).run (serveRead (read fuel))

section Operations

variable (serve : (r : TableRequest) → Act Ideal r.Answer)

def write (o : ObjectRef) (name : String) (v : Value) : Act Ideal Unit := do
  let (d, old) ← stored o name
  record (.assigned o name v)
  match d.hooks with
  | none => return ()
  | some hooks => (hooks.written o name v old).run serve

def sparing (o : ObjectRef) (hook : Act Ideal Unit) : Act Ideal Unit := fun i =>
  match hook i with
  | .fault e i => .fault e { i with deeds := .spared o :: i.deeds }
  | x => x

def delete (o : ObjectRef) : Act Ideal Unit := do
  let i ← Act.get
  if o ∈ living i.deeds then
    record (.condemned o)
    if let some hooks :=
      (definition? o i.deeds).bind Definition.hooks then sparing o ((hooks.deleted o).run serve)
    record (.destroyed o)

end Operations

def allocate (name : Nat → ObjectRef) (path : String) : Act Ideal ObjectRef := do
  let i ← Act.get
  match i.types[path]? with
  | some d =>
    record (.made (name (made i.deeds).length) d)
    return name (made i.deeds).length
  | none => Act.raise (.unknownType path)

/-- The reference id of an object is the number of objects that were asked for theirs before it
first was. -/
def referenceId (o : ObjectRef) : Act Ideal UInt32 := do
  let _ ← definition o
  let i ← Act.get
  record (.numbered o)
  return UInt32.ofNat ((numbered i.deeds).idxOf o)

def serve (name : Nat → ObjectRef) : (fuel : Nat) → (r : TableRequest) → Act Ideal r.Answer
  | 0, _ => fun _ => .exhausted
  | fuel + 1, .read o x => read fuel o x
  | fuel + 1, .write o x v => write (serve name fuel) o x v
  | fuel + 1, .delete o => delete (serve name fuel) o
  | _ + 1, .allocate path => allocate name path
  | _ + 1, .alive o => do return decide (o ∈ living (← Act.get).deeds)
  | _ + 1, .count => do return (living (← Act.get).deeds).length
  | _ + 1, .referenceId o => referenceId o
  | _ + 1, .note e => note e

end Ideal

/-! ### Calls from outside -/

inductive TableCall
  | allocate (path : String)
  | delete (o : ObjectRef)
  | get (o : ObjectRef)
  | getVariable (o : ObjectRef) (name : String)
  | setVariable (o : ObjectRef) (name : String) (v : Value)
  | getProc (o : ObjectRef) (name : String)
  | tryGetProc (o : ObjectRef) (name : String)
  | isAlive (o : ObjectRef)
  | len

inductive Reply
  | done
  | failed (why : Fault)
  | object (o : ObjectRef)
  /-- The type of an object and the variables assigned to it. -/
  | contents (d : Definition) (assigned : String → Option Value)
  | value (v : Value)
  | proc (p : ProcRef)
  | proc? (p : Option ProcRef)
  | flag (b : Bool)
  | number (n : Nat)

/-- Makes calls one by one. A call that fails is answered with its fault. -/
def replies {σ : Type} (answer : TableCall → Act σ Reply) : List TableCall → Act σ (List Reply)
  | [], s => .ok [] s
  | call :: rest, s =>
    match answer call s with
    | .ok reply s => (do return reply :: (← replies answer rest)) s
    | .fault e s => (do return Reply.failed e :: (← replies answer rest)) s
    | .breach b s => .breach b s
    | .exhausted => .exhausted

def Store.answer (fuel : Nat) : TableCall → Act Store Reply
  | .allocate path => do return .object (← serve fuel (.allocate path))
  | .delete o => do
    serve fuel (.delete o)
    return .done
  | .get o => do
    let object ← ask fun t => t.get o
    return .contents object.definition fun name => object.vars[name]?
  | .getVariable o name => do return .value (← serve fuel (.read o name))
  | .setVariable o name v => do
    serve fuel (.write o name v)
    return .done
  | .getProc o name => do return .proc (← ask fun t => t.proc o name)
  | .tryGetProc o name => do return .proc? (← ask fun t => t.proc? o name)
  | .isAlive o => do return .flag (← serve fuel (.alive o))
  | .len => do return .number (← serve fuel .count)

def Ideal.answer (name : Nat → ObjectRef) (fuel : Nat) : TableCall → Act Ideal Reply
  | .allocate path => do return .object (← serve name fuel (.allocate path))
  | .delete o => do
    serve name fuel (.delete o)
    return .done
  | .get o => do
    let d ← definition o
    let i ← Act.get
    return .contents d fun x => assigned? o x i.deeds
  | .getVariable o x => do return .value (← serve name fuel (.read o x))
  | .setVariable o x v => do
    serve name fuel (.write o x v)
    return .done
  | .getProc o x => do
    let d ← definition o
    match d.procs[x]? with
    | some p => return .proc p
    | none => Act.raise (.unknownProc d.path x)
  | .tryGetProc o x => do return .proc? (← definition o).procs[x]?
  | .isAlive o => do return .flag (← serve name fuel (.alive o))
  | .len => do return .number (← serve name fuel .count)

end ProcEngine
