import ProcEngine.Object.Table
/-!
# The object table with its hooks

`Store` is the object table beside the journal of everything that was told to the outside. Reading,
assigning and deleting run the hooks of the object's type, which may work on the table again, and so
on; fuel bounds how deep hooks nest. What a hook fails with is what the operation fails with: a
value has been assigned by then, a slot has not been freed.
-/

namespace ProcEngine

/-- What has been done to objects. -/
inductive Deed
  | made (o : ObjectRef) (d : Definition)
  | assigned (o : ObjectRef) (name : String) (v : Value)
  | numbered (o : ObjectRef)
  /-- Its deletion has begun. -/
  | condemned (o : ObjectRef)
  /-- The hook of its deletion has failed. -/
  | spared (o : ObjectRef)
  | destroyed (o : ObjectRef)

structure Store where
  objects : ObjectTable := {}
  journal : Array Event := #[]
  /-- What has been done to objects, the latest first. Nothing that runs looks at it. -/
  deeds : List Deed := []

namespace Store

/-- Leaves a note of the host's. Reports are not the host's to make and are passed over. -/
def note (e : Event) : Act Store Unit := fun s =>
  .ok () (if e.isReport then s else { s with journal := s.journal.push e })

def record (d : Deed) : Act Store Unit := fun s => .ok () { s with deeds := d :: s.deeds }

/-- Runs something that may change the table alone. -/
def onTable {α : Type} (f : ObjectTable → Except Fault (α × ObjectTable)) : Act Store α := fun s =>
  match f s.objects with
  | .ok (a, t) => .ok a { s with objects := t }
  | .error e => .fault e s

def ask {α : Type} (f : ObjectTable → Except Fault α) : Act Store α := fun s =>
  match f s.objects with
  | .ok a => .ok a s
  | .error e => .fault e s

def serveRead (read : ObjectRef → String → Act Store Value) : (r : ReadRequest) → Act Store r.Answer
  | .read o name => read o name
  | .note e => note e

/-- Reads a variable, by way of the hook of the object's type. -/
def read : (fuel : Nat) → ObjectRef → String → Act Store Value
  | 0, _, _ => fun _ => .exhausted
  | fuel + 1, o, name => do
    let (object, v) ← ask fun t => t.stored o name
    match object.definition.hooks with
    | none => return v
    | some hooks => (hooks.read o name v).run (serveRead (read fuel))

/-- Assigns a declared variable and tells the hook. -/
def write (serve : (r : TableRequest) → Act Store r.Answer) (o : ObjectRef) (name : String)
    (v : Value) :
    Act Store Unit := do
  let (object, old) ← ask fun t => t.stored o name
  onTable fun t => .ok ((), t.assign o name v)
  record (.assigned o name v)
  match object.definition.hooks with
  | none => return ()
  | some hooks => (hooks.written o name v old).run serve

/-- Runs the hook that may stop an object from being deleted. -/
def sparing (o : ObjectRef) (hook : Act Store Unit) : Act Store Unit := fun s =>
  match hook s with
  | .fault e s => .fault e { s with deeds := .spared o :: s.deeds }
  | x => x

/-- Runs the hook, then drops the reference id and frees the slot. An object that is not alive is
left alone. -/
def delete (serve : (r : TableRequest) → Act Store r.Answer) (o : ObjectRef) : Act Store Unit := do
  match (← Act.get).objects.get? o with
  | none => return ()
  | some object =>
    record (.condemned o)
    if let some hooks := object.definition.hooks then sparing o ((hooks.deleted o).run serve)
    onTable fun t => .ok ((), t.retire o)
    record (.destroyed o)

def allocate (path : String) : Act Store ObjectRef := do
  let d ← ask fun t => t.type path
  let o ← onTable fun t => t.allocate path
  record (.made o d)
  return o

def referenceId (o : ObjectRef) : Act Store UInt32 := do
  let id ← onTable fun t => t.referenceId o
  record (.numbered o)
  return id

/-- Counts the objects. The free slots outnumber the slots where one of them has been freed
twice. -/
def count : Act Store Nat := do
  let t := (← Act.get).objects
  Act.need (t.free.length ≤ t.slots.size) .subOverflow
  return t.size

theorem count_eq (s : Store) :
    count s = if s.objects.free.length ≤ s.objects.slots.size then .ok s.objects.size s
      else .breach .subOverflow s := by
  rw [count, Act.get_bind, Act.need_bind]
  rfl

def serve : (fuel : Nat) → (r : TableRequest) → Act Store r.Answer
  | 0, _ => fun _ => .exhausted
  | fuel + 1, .read o name => read fuel o name
  | fuel + 1, .write o name v => write (serve fuel) o name v
  | fuel + 1, .delete o => delete (serve fuel) o
  | _ + 1, .allocate path => allocate path
  | _ + 1, .alive o => ask fun t => .ok (t.isAlive o)
  | _ + 1, .count => count
  | _ + 1, .referenceId o => referenceId o
  | _ + 1, .note e => note e

end Store

end ProcEngine
