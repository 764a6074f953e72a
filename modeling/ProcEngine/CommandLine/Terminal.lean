import ProcEngine.File
import ProcEngine.Log.Line
/-!
# Terminals

What the program needs of its surroundings, in any monad. Over real files and a real clock it runs
for a user; over a tree of files and a record of what was written it is a function.
-/

namespace ProcEngine.CommandLine

structure Terminal (m : Type → Type) where
  read : (path : String) → m (Except FileError String)
  /-- Writes a line of the program's own output. -/
  print : (line : String) → m Unit
  log : Log.Line → m Unit
  /-- Writes a line for the user that is no output. -/
  complain : (line : String) → m Unit
  /-- Lets the length of a tick pass, in milliseconds. -/
  pause : (length : UInt64) → m Unit

/-- What was written: output and log in order, as lines of text, and complaints. -/
structure Transcript where
  output : Array String := #[]
  complaints : Array String := #[]

/-- A terminal that records what is written and lets no time pass. -/
def Terminal.recording (files : FileTree) : Terminal (StateM Transcript) where
  read path := return files.read path
  print line := modify fun t => { t with output := t.output.push line }
  log line := modify fun t => { t with output := t.output.push line.text }
  complain line := modify fun t => { t with complaints := t.complaints.push line }
  pause _ := return ()

end ProcEngine.CommandLine
