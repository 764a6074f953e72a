import ProcEngine.Arguments
import ProcEngine.Event
import ProcEngine.Program
/-!
# Type definitions

A definition is what all objects of one type share. It is merged with its parent's when it is built,
so a look-up never walks the chain of parents.

`Hooks` are the host's say in the life of a type's objects. They may work on the object table and
cannot call procs; the one that is run on reading cannot change the table either.
-/

namespace ProcEngine

/-- What a hook that is run on reading may ask for. -/
inductive ReadRequest
  | read (o : ObjectRef) (name : String)
  | note (e : Event)

def ReadRequest.Answer : ReadRequest → Type
  | read .. => Value
  | note _ => Unit

abbrev ReadCalls : Interface := ⟨ReadRequest, ReadRequest.Answer⟩

/-- What the other hooks may ask for. -/
inductive TableRequest
  | read (o : ObjectRef) (name : String)
  | write (o : ObjectRef) (name : String) (v : Value)
  | delete (o : ObjectRef)
  | allocate (path : String)
  | alive (o : ObjectRef)
  | count
  | referenceId (o : ObjectRef)
  | note (e : Event)

def TableRequest.Answer : TableRequest → Type
  | read .. => Value
  | write .. => Unit
  | delete _ => Unit
  | allocate _ => ObjectRef
  | alive _ => Bool
  | count => Nat
  | referenceId _ => UInt32
  | note _ => Unit

abbrev TableCalls : Interface := ⟨TableRequest, TableRequest.Answer⟩

structure Hooks where
  /-- Whether construction ends with the type's constructor. -/
  callsNew : Bool
  created : ObjectRef → Arguments → Program TableCalls Unit
  /-- Gives the value to be read in place of the stored one. -/
  read : ObjectRef → String → Value → Program ReadCalls Value
  /-- Is told the new value and the old one. -/
  written : ObjectRef → String → Value → Value → Program TableCalls Unit
  deleted : ObjectRef → Program TableCalls Unit

def Hooks.none : Hooks where
  callsNew := true
  created _ _ := .done ()
  read _ _ v := .done v
  written _ _ _ _ := .done ()
  deleted _ := .done ()

structure Definition where
  path : String
  parent : Option Definition
  /-- The default of every declared variable. -/
  vars : Names Value
  procs : Names ProcRef
  initializer : Option ProcRef
  hooks : Option Hooks

namespace Definition

/-- The paths of a definition and of its ancestors, nearest first. -/
def lineage : Definition → List String
  | ⟨path, none, _, _, _, _⟩ => [path]
  | ⟨path, some parent, _, _, _, _⟩ => path :: parent.lineage

def isSubtypeOf (d : Definition) (path : String) : Bool := d.lineage.contains path

def parentPath (d : Definition) : Option String := d.parent.map Definition.path

/-- The definition spelled out: its paths and the names of all its procs. -/
def details (d : Definition) : String :=
  let parent := match d.parentPath with
    | some p => s!"Some({Text.quoted p})"
    | none => "None"
  "ObjectDefinition \x7b type_path: " ++ Text.quoted d.path ++ ", parent: " ++ parent ++
    ", procs: " ++ Text.bracketed (d.procs.keys.map Text.quoted) ++ ", .. \x7d"

end Definition

structure TypeSpec where
  path : String
  vars : Names Value := ∅
  /-- In order of declaration. A name may come twice; the later proc then overrides the earlier
  one. -/
  procs : List (String × ProcRef) := []
  initializer : Option ProcRef := none
  hooks : Option Hooks := none

structure Override where
  proc : ProcRef
  overridden : ProcRef

/-- Adds procs one by one to a table, collecting the pairs of override and overridden. -/
def addProcs (table : Names ProcRef) : List (String × ProcRef) → Names ProcRef × List Override
  | [] => (table, [])
  | (name, proc) :: rest =>
    let (final, overrides) := addProcs (table.insert name proc) rest
    match table[name]? with
    | some overridden => (final, ⟨proc, overridden⟩ :: overrides)
    | none => (final, overrides)

/-- Merges a declaration with its parent. Own variables and procs win, hooks are inherited unless
there are own ones, the initializer is never inherited. -/
def TypeSpec.build (spec : TypeSpec) (parent : Option Definition) : Definition × List Override :=
  let inherited : Names ProcRef := (parent.map Definition.procs).getD ∅
  let defaults : Names Value := (parent.map Definition.vars).getD ∅
  let (procs, overrides) := addProcs inherited spec.procs
  ({ path := spec.path
     parent
     vars := defaults.insertMany spec.vars.toList
     procs
     initializer := spec.initializer
     hooks := spec.hooks <|> parent.bind Definition.hooks }, overrides)

end ProcEngine
