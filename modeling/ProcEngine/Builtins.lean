import ProcEngine.World.Loading
/-!
# Builtins

The two procs that every world has: `world_log` logs a line of the world, `sleep` pauses once for a
number of ticks. They can be installed as global procs, and bound by name from compiled worlds.
-/

namespace ProcEngine.Builtins

def worldLogName : String := "world_log"

def sleepName : String := "sleep"

/-- Logs the texts of all arguments, separated by blanks. -/
def worldLog : Handler := fun i => do
  let line := " ".intercalate (i.arguments.positional.map Value.display)
  let _ ← Program.request (i := HostCalls) (.table (.note (.worldLine line i.src)))
  return .null

/-- Sleeps for as many ticks as the first argument says; a negative number counts as none. -/
def sleep (i : Invocation) : Routine := do
  let ticks ← (i.arguments.get 0).asInt
  let _ ← Program.request (i := RoutineCalls) (.sleep (ScriptFrame.ticksOf ticks))
  return .null

def worldLogProc : Proc where
  signature := { name := worldLogName }
  body := .handler worldLog

def sleepProc : Proc where
  signature := { name := sleepName, params := ["ticks"], kinds := [⟨[.num]⟩] }
  body := .routine false fun i _ => sleep i

def registry : Registry where
  bindings :=
    Std.ExtTreeMap.ofList [(worldLogName, Binding.handler worldLog),
      (sleepName, Binding.routine fun i _ => sleep i)]

def install (rt : Runtime) : Runtime :=
  let (log, rt) := rt.addProc worldLogProc
  let (sleep, rt) := rt.addProc sleepProc
  (rt.defineGlobal worldLogName log).defineGlobal sleepName sleep

end ProcEngine.Builtins
