import ProcEngine.Object.Definition
/-!
# Hooks as data

A way for a host to describe the hooks of a type as data: every hook tells what it was asked,
refuses if it is listed as failing, and then does the few things that the plan says.
-/

namespace ProcEngine.Host

structure HookPlan where
  callsNew : Bool := true
  /-- The hooks that refuse: `created`, `deleted`, and `get:` or `set:` before the name of a
  variable. -/
  failing : List String := []
  /-- Variables to assign when an object has been created. -/
  setOnCreate : List (String × Value) := []
  deleteOnCreate : Bool := false
  /-- Variables that are read from another one. -/
  aliases : List (String × String) := []
  /-- Variables that are read as twice their value. -/
  double : List String := []
  /-- Variables whose value is also assigned to another one. -/
  mirror : List (String × String) := []
  /-- Variables whose assignment deletes the object. -/
  deleteOnSet : List String := []
  /-- A type to allocate an object of when an object is deleted. -/
  allocateOnDelete : Option String := none

namespace HookPlan

def ask (r : TableRequest) : Program TableCalls r.Answer := Program.request (i := TableCalls) r

def refuseIf (p : HookPlan) {i : Interface} (hook : String) : Program i Unit :=
  if p.failing.contains hook then .fail (.hook s!"{hook} refused") else .done ()

def assignAll (o : ObjectRef) : List (String × Value) → Program TableCalls Unit
  | [] => .done ()
  | (name, v) :: rest => do
    ask (.write o name v)
    assignAll o rest

def created (p : HookPlan) (o : ObjectRef) (arguments : Arguments) : Program TableCalls Unit := do
  ask (.note (.created o arguments.size))
  p.refuseIf "created"
  assignAll o p.setOnCreate
  if p.deleteOnCreate then ask (.delete o)

def read (p : HookPlan) (o : ObjectRef) (name : String) (v : Value) : Program ReadCalls Value := do
  Program.request (i := ReadCalls) (.note (.read o name v))
  p.refuseIf s!"get:{name}"
  match p.aliases.lookup name with
  | some other => Program.request (i := ReadCalls) (.read o other)
  | none => if p.double.contains name then Program.ofExcept (v.mul (.int 2)) else return v

def written (p : HookPlan) (o : ObjectRef) (name : String) (v old : Value) :
    Program TableCalls Unit := do
  ask (.note (.written o name v old))
  p.refuseIf s!"set:{name}"
  if let some other := p.mirror.lookup name then ask (.write o other v)
  if p.deleteOnSet.contains name then ask (.delete o)

def deleted (p : HookPlan) (o : ObjectRef) : Program TableCalls Unit := do
  let live : Nat ← ask .count
  ask (.note (.deleted o live))
  p.refuseIf "deleted"
  if let some path := p.allocateOnDelete then
    let fresh : ObjectRef ← ask (.allocate path)
    ask (.note (.allocated fresh))

def hooks (p : HookPlan) : Hooks where
  callsNew := p.callsNew
  created := p.created
  read := p.read
  written := p.written
  deleted := p.deleted

end HookPlan

end ProcEngine.Host
