import ProcEngine.Construction
import ProcEngine.Context
import ProcEngine.Object.Store
/-!
# The runtime

What all contexts share: the objects, the procs, the global names of procs, and the contexts that
stopped while nobody was there to resume them.
-/

namespace ProcEngine

structure Runtime where
  store : Store := {}
  procs : Array Proc := #[]
  globals : Names ProcRef := ∅
  /-- How many activations a context may hold. -/
  maxDepth : Nat := 256
  /-- How many contexts have been created. -/
  contexts : Nat := 0
  /-- Contexts that stopped and wait to be adopted, the earliest first. -/
  detached : Array Context := #[]
  marks : Names ContextId := ∅
  /-- What has become of contexts, the latest first. Nothing that runs looks at it. -/
  chronicle : List Milestone := []

namespace Runtime

def objects (rt : Runtime) : ObjectTable := rt.store.objects

def tell (rt : Runtime) (e : Event) : Runtime :=
  { rt with store := { rt.store with journal := rt.store.journal.push e } }

/-! ### Procs -/

/-- The proc that runs construction. It is there without being added. -/
def init : ProcRef := ⟨0, Construction.procName⟩

/-- Adds a proc; the reference given out is its identity. -/
def addProc (rt : Runtime) (p : Proc) : ProcRef × Runtime :=
  (⟨rt.procs.size + 1, p.name⟩, { rt with procs := rt.procs.push p })

/-- A reference that nothing was added for stands for a proc that does nothing. -/
def proc (rt : Runtime) (p : ProcRef) : Proc :=
  match p.id with
  | 0 => Construction.proc
  | i + 1 => rt.procs[i]?.getD { signature := { name := p.name }, body := .script #[] 0 }

def defineGlobal (rt : Runtime) (name : String) (p : ProcRef) : Runtime :=
  { rt with globals := rt.globals.insert name p }

def global (rt : Runtime) (name : String) : Except Fault ProcRef :=
  match rt.globals[name]? with
  | some p => .ok p
  | none => .error (.unknownProc "world" name)

/-- Links an override to the proc it overrides, unless it is linked already. -/
def link (rt : Runtime) (o : Override) : Runtime :=
  match o.proc.id with
  | 0 => rt
  | i + 1 =>
    { rt with procs := rt.procs.modify i fun p =>
      { p with overridden := p.overridden <|> some o.overridden } }

/-- Builds a definition and links the overrides in it. The type is not registered. -/
def buildType (rt : Runtime) (spec : TypeSpec) (parent : Option Definition) :
    Definition × Runtime :=
  let (d, overrides) := spec.build parent
  (d, overrides.foldl link rt)

def register (rt : Runtime) (d : Definition) : Runtime :=
  { rt with store := { rt.store with objects := rt.store.objects.register d } }

/-! ### Contexts -/

def record (rt : Runtime) (m : Milestone) : Runtime := { rt with chronicle := m :: rt.chronicle }

def newContextOf (rt : Runtime) (maxDepth : Nat) : Context × Runtime :=
  ({ id := rt.contexts + 1, maxDepth },
    { rt with contexts := rt.contexts + 1 }.record (.created (rt.contexts + 1)))

def newContext (rt : Runtime) : Context × Runtime := rt.newContextOf rt.maxDepth

/-- Creates an activation. Nothing runs and nothing is checked yet. -/
def activate (rt : Runtime) (p : ProcRef) (context : ContextId) (invocation : Invocation) :
    Activation × Runtime :=
  let proc := rt.proc p
  ({ context, proc := p, signature := proc.signature, invocation, frame := proc.body.frame },
   match proc.mark with
   | some label => { rt with marks := rt.marks.insert label context }
   | none => rt)

def detach (rt : Runtime) (c : Context) : Runtime := { rt with detached := rt.detached.push c }

def takeDetached (rt : Runtime) : List Context × Runtime :=
  (rt.detached.toList, { rt with detached := #[] })

/-- Ends a context with a fault: reports it with the activations on the stack, then drops them. -/
def abort (rt : Runtime) (c : Context) (why : Fault) : Context × Runtime :=
  ({ c with stack := [], state := .faulted why }, rt.tell (.fault c.id why c.trace))

end Runtime

end ProcEngine
