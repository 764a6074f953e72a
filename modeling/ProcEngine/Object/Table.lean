import ProcEngine.Object.Definition
/-!
# The object table

Objects live in slots. Freeing a slot moves its generation on, so that the handles given out for it
stop resolving; the slot is then used again, the one freed last first. A variable is read from the
object's own values first and from the defaults of its type otherwise. Reference ids are small
numbers by which the outside addresses objects; they are handed out in ascending order and dropped
when the object is retired. Slots and ids have numbers of 32 bits. What becomes of a table that has
run out of them is not followed.

The operations here run no hooks: `ProcEngine.Object.Store` adds them.
-/

namespace ProcEngine

structure Object where
  definition : Definition
  /-- The variables assigned since the object was allocated. -/
  vars : Names Value := ∅

structure Slot where
  generation : UInt32 := 0
  object : Option Object := none

structure ObjectTable where
  types : Names Definition := ∅
  slots : Array Slot := #[]
  /-- The slots to use again, the next one first. -/
  free : List UInt32 := []
  idOf : Std.ExtTreeMap ObjectRef UInt32 := ∅
  objectOf : Std.ExtTreeMap UInt32 ObjectRef := ∅
  nextId : UInt32 := 0

def Object.variable? (o : Object) (name : String) : Option Value :=
  o.vars[name]? <|> o.definition.vars[name]?

namespace ObjectTable

/-! ### Types -/

def register (t : ObjectTable) (d : Definition) : ObjectTable :=
  { t with types := t.types.insert d.path d }

def type (t : ObjectTable) (path : String) : Except Fault Definition :=
  match t.types[path]? with
  | some d => .ok d
  | none => .error (.unknownType path)

/-! ### Lifetime -/

def get? (t : ObjectTable) (o : ObjectRef) : Option Object :=
  match t.slots[o.index.toNat]? with
  | some slot => if slot.generation = o.generation then slot.object else none
  | none => none

def get (t : ObjectTable) (o : ObjectRef) : Except Fault Object :=
  match t.get? o with
  | some object => .ok object
  | none => .error (.deletedObject o)

def isAlive (t : ObjectTable) (o : ObjectRef) : Bool := (t.get? o).isSome

def modifySlot (t : ObjectTable) (index : UInt32) (f : Slot → Slot) : ObjectTable :=
  { t with slots := t.slots.modify index.toNat f }

/-- The slot that the next object goes to, and the table in which it is taken. -/
def takeSlot (t : ObjectTable) : UInt32 × ObjectTable :=
  match t.free with
  | index :: rest => (index, { t with free := rest })
  | [] => (UInt32.ofNat t.slots.size, { t with slots := t.slots.push {} })

def allocateOf (t : ObjectTable) (d : Definition) : ObjectRef × ObjectTable :=
  let (index, t) := t.takeSlot
  let t := t.modifySlot index fun slot => { slot with object := some { definition := d } }
  (⟨index, (t.slots[index.toNat]?.getD {}).generation⟩, t)

def allocate (t : ObjectTable) (path : String) : Except Fault (ObjectRef × ObjectTable) :=
  (t.type path).map t.allocateOf

def dropId (t : ObjectTable) (o : ObjectRef) : ObjectTable :=
  match t.idOf[o]? with
  | some id => { t with idOf := t.idOf.erase o, objectOf := t.objectOf.erase id }
  | none => t

/-- Frees the slot that the handle names, whichever generation is in it. -/
def freeSlot (t : ObjectTable) (index : UInt32) : ObjectTable :=
  let t := t.modifySlot index fun slot => { generation := slot.generation + 1, object := none }
  { t with free := index :: t.free }

def retire (t : ObjectTable) (o : ObjectRef) : ObjectTable := (t.dropId o).freeSlot o.index

/-- The number of slots in use. It is asked for only where no more slots are free than there are. -/
def size (t : ObjectTable) : Nat := t.slots.size - t.free.length

def isEmpty (t : ObjectTable) : Bool := t.size == 0

/-! ### Variables and procs -/

/-- The stored value of a variable of an object that is alive. -/
def stored (t : ObjectTable) (o : ObjectRef) (name : String) : Except Fault (Object × Value) := do
  let object ← t.get o
  match object.variable? name with
  | some v => return (object, v)
  | none => throw (.unknownVariable object.definition.path name)

def assign (t : ObjectTable) (o : ObjectRef) (name : String) (v : Value) : ObjectTable :=
  t.modifySlot o.index fun slot =>
    { slot with object := slot.object.map fun object =>
        { object with vars := object.vars.insert name v } }

def definition (t : ObjectTable) (o : ObjectRef) : Except Fault Definition := do
  return (← t.get o).definition

/-- The proc of an object that is alive, if its type has one of that name. -/
def proc? (t : ObjectTable) (o : ObjectRef) (name : String) : Except Fault (Option ProcRef) := do
  return (← t.definition o).procs[name]?

def proc (t : ObjectTable) (o : ObjectRef) (name : String) : Except Fault ProcRef := do
  let d ← t.definition o
  match d.procs[name]? with
  | some p => return p
  | none => throw (.unknownProc d.path name)

/-! ### Reference ids -/

/-- The object's reference id, given out on first request. -/
def referenceId (t : ObjectTable) (o : ObjectRef) : Except Fault (UInt32 × ObjectTable) := do
  let _ ← t.get o
  match t.idOf[o]? with
  | some id => return (id, t)
  | none =>
    let id := t.nextId
    return (id,
      { t with nextId := id + 1, idOf := t.idOf.insert o id, objectOf := t.objectOf.insert id o })

def ofReferenceId (t : ObjectTable) (id : UInt32) : Option ObjectRef := t.objectOf[id]?

end ObjectTable

end ProcEngine
