import ProcEngine.Kind
import ProcEngine.Script.Code
/-!
# Compiled worlds

What a compiler hands to the engine: the types of a world and its global procs, with script procs as
instruction lists and native procs by the name of what the host binds them to.
-/

namespace ProcEngine

inductive CompiledBody
  /-- The name that the host binds something to. -/
  | native (binding : String)
  | script (code : List Instr) (locals : UInt64)

structure CompiledProc where
  params : List String := []
  kinds : List KindSet := []
  body : CompiledBody

structure CompiledType where
  path : String
  parent : Option String := none
  vars : List (String × Constant) := []
  /-- By name, in ascending order. -/
  procs : List (String × CompiledProc) := []
  initializer : Option CompiledProc := none

structure CompiledWorld where
  types : List CompiledType := []
  /-- By name, in ascending order. -/
  procs : List (String × CompiledProc) := []

end ProcEngine
