import ProcEngine.Runtime
import ProcEngine.World.Format
/-!
# Loading a world

Types may be listed in any order. First every proc of every type is built; then the definitions are
assembled, each after its parent, which links the overrides; then the types are registered; and last
the global procs are built and defined one by one. A parent may also be a type that the host
registered before.
-/

namespace ProcEngine

inductive Binding
  | handler (run : Handler)
  | routine (start : Invocation → Value → Routine)

/-- The host's side of a world: native procs by name, and hooks by the path of the type they are
for. -/
structure Registry where
  bindings : Names Binding := ∅
  hooks : Names Hooks := ∅

inductive LoadError
  | malformed
  | missingBinding (binding proc : String)
  | duplicateType (path : String)
  | unknownParent (path : String)
  | cycle (path : String)
  deriving DecidableEq

def LoadError.message : LoadError → String
  | malformed => "Failed to parse compiled world"
  | missingBinding binding proc => s!"No native binding '{binding}' for {proc}"
  | duplicateType path => s!"Type {path} is defined twice"
  | unknownParent path => s!"Unknown parent type {path}: {(Fault.unknownType path).message}"
  | cycle path => s!"Type inheritance cycle through {path}"

/-- How much a world brought. -/
structure LoadSummary where
  types : Nat
  procs : Nat
  deriving DecidableEq

/-- A type whose procs are built and whose definition is not. -/
structure PendingType where
  parent : Option String
  spec : TypeSpec

def Binding.body : Binding → Body
  | handler run => .handler run
  | routine start => .routine false start

/-- The signature of a compiled proc; a parameter without declared kinds takes anything. -/
def CompiledProc.signature (p : CompiledProc) (name : String) : Signature where
  name
  params := p.params
  kinds := p.kinds ++ List.replicate (p.params.length - p.kinds.length) KindSet.any

def Registry.body (r : Registry) (name : String) : CompiledBody → Except LoadError Body
  | .script code locals => .ok (.script code.toArray locals)
  | .native binding =>
    match r.bindings[binding]? with
    | some b => .ok b.body
    | none => .error (.missingBinding binding name)

namespace Runtime

def buildProc (rt : Runtime) (r : Registry) (name : String) (p : CompiledProc) :
    Except LoadError (ProcRef × Runtime) :=
  (r.body name p.body).map fun body => rt.addProc { signature := p.signature name, body }

/-- Builds the procs of one type, in the order of their names. -/
def buildProcs (rt : Runtime) (r : Registry) (path : String) :
    List (String × CompiledProc) → Except LoadError (List (String × ProcRef) × Runtime)
  | [] => .ok ([], rt)
  | (name, p) :: rest => do
    let (proc, rt) ← rt.buildProc r s!"{path}/proc/{name}" p
    let (procs, rt) ← rt.buildProcs r path rest
    return ((name, proc) :: procs, rt)

def buildInitializer (rt : Runtime) (r : Registry) (path : String) :
    Option CompiledProc → Except LoadError (Option ProcRef × Runtime)
  | none => .ok (none, rt)
  | some p => do
    let (proc, rt) ← rt.buildProc r s!"{path}/(init)" p
    return (some proc, rt)

def prepareType (rt : Runtime) (r : Registry) (ty : CompiledType) :
    Except LoadError (PendingType × Runtime) := do
  let (procs, rt) ← rt.buildProcs r ty.path ty.procs
  let (initializer, rt) ← rt.buildInitializer r ty.path ty.initializer
  let vars : Names Value := Std.ExtTreeMap.ofList (ty.vars.map fun (name, c) => (name, c.toValue))
  return ({ parent := ty.parent
            spec := { path := ty.path, vars, procs, initializer, hooks := r.hooks[ty.path]? } }, rt)

/-- Builds the procs of all types in the order listed. No path may be listed twice. -/
def prepareTypes (rt : Runtime) (r : Registry) (pending : Names PendingType) :
    List CompiledType → Except LoadError (Names PendingType × Runtime)
  | [] => .ok (pending, rt)
  | ty :: rest => do
    let (p, rt) ← rt.prepareType r ty
    if pending.contains ty.path then throw (.duplicateType ty.path)
    rt.prepareTypes r (pending.insert ty.path p) rest

end Runtime

/-- Definitions half assembled: what is still to build, what is built, and the runtime in which
overrides are linked. -/
structure Assembly where
  pending : Names PendingType
  built : Names Definition := ∅
  runtime : Runtime

namespace Assembly

/-- Builds the definition of a path after those of its ancestors. `visiting` holds the paths whose
parents are being built. A chain that uses up the fuel, one more than there are types to build,
comes back on itself. -/
def build : (fuel : Nat) → (visiting : List String) → (path : String) → Assembly →
    Except LoadError (Definition × Assembly)
  | 0, _, path, _ => .error (.cycle path)
  | fuel + 1, visiting, path, a =>
    match a.built[path]? with
    | some d => .ok (d, a)
    | none =>
      if visiting.contains path then .error (.cycle path)
      else
        match a.pending[path]? with
        | none =>
          match a.runtime.objects.types[path]? with
          | some d => .ok (d, a)
          | none => .error (.unknownParent path)
        | some p => do
          let a := { a with pending := a.pending.erase path }
          let (parent, a) ← match p.parent with
            | none => pure (none, a)
            | some parent => (build fuel (path :: visiting) parent a).map fun (d, a) => (some d, a)
          let (d, runtime) := a.runtime.buildType p.spec parent
          return (d, { a with runtime, built := a.built.insert path d })

def buildAll (fuel : Nat) (a : Assembly) : List String → Except LoadError Assembly
  | [] => .ok a
  | path :: rest => do
    let (_, a) ← build fuel [] path a
    buildAll fuel a rest

end Assembly

namespace Runtime

/-- Builds all definitions of a world; nothing is registered yet. -/
def buildTypes (rt : Runtime) (r : Registry) (types : List CompiledType) :
    Except LoadError (List Definition × Runtime) := do
  let (pending, rt) ← rt.prepareTypes r ∅ types
  let a ← Assembly.buildAll (pending.size + 1) { pending, runtime := rt } pending.keys
  return (a.built.toList.map (·.2), a.runtime)

/-- Builds and defines global procs until one cannot be built. -/
def defineGlobals (rt : Runtime) (r : Registry) : List (String × CompiledProc) →
    Except LoadError Unit × Runtime
  | [] => (.ok (), rt)
  | (name, p) :: rest =>
    match rt.buildProc r s!"/proc/{name}" p with
    | .error e => (.error e, rt)
    | .ok (proc, rt) => (rt.defineGlobal name proc).defineGlobals r rest

def loadCompiled (rt : Runtime) (r : Registry) (w : CompiledWorld) :
    Except LoadError LoadSummary × Runtime :=
  match rt.buildTypes r w.types with
  | .error e => (.error e, rt)
  | .ok (definitions, built) =>
    let (outcome, rt) := (definitions.foldl register built).defineGlobals r w.procs
    (outcome.map fun _ => { types := definitions.length, procs := w.procs.length }, rt)

def loadWorld (rt : Runtime) (r : Registry) (text : String) :
    Except LoadError LoadSummary × Runtime :=
  match Format.readWorld text with
  | none => (.error .malformed, rt)
  | some w => rt.loadCompiled r w

end Runtime

end ProcEngine
