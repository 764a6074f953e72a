import ProcEngine.Proc
/-!
# Construction

Constructing an object is an ordinary call of the `(init)` proc with the object, already allocated,
as its receiver. It runs the initializer of the object's type, then the hook for created objects,
then the constructor `New` if the type has one and its hooks do not decline it, and returns the
object. The arguments are passed on to the constructor as they came; the constructor binds them.
-/

namespace ProcEngine.Construction

def procName : String := "(init)"

def constructorName : String := "New"

def host (r : HostRequest) : Program RoutineCalls r.Answer :=
  Program.request (i := RoutineCalls) (.host r)

def invoke (p : ProcRef) (i : Invocation) : Program RoutineCalls Value :=
  Program.request (i := RoutineCalls) (.invoke p i)

def runInitializer (object : ObjectRef) : Routine := do
  match ← host (.initializer object) with
  | some p => invoke p { src := some object }
  | none => return .null

def runConstructor (object : ObjectRef) (i : Invocation) : Routine := do
  match ← host (.method? object constructorName) with
  | some p => invoke p { src := some object, usr := i.usr, arguments := i.arguments }
  | none => return .null

def routine (i : Invocation) : Routine :=
  match i.src with
  | none => .fail (.notAnObject .null)
  | some object => do
    let _ ← runInitializer object
    let wanted : Bool ← host (.created object i.arguments)
    if wanted then
      let _ ← runConstructor object i
    return .object object

def proc : Proc where
  signature := { name := procName }
  body := .routine true fun i _ => routine i

end ProcEngine.Construction
