import ProcEngine.Context
/-!
# Fault reports

A report has a message, which names the context and the fault, and a dump, which shows the call
frames, innermost first, and the fault spelled out.
-/

namespace ProcEngine.Diagnostics

def message (context : ContextId) (why : Fault) : String := s!"{context.text}: {why.message}"

def dump (why : Fault) (trace : List TraceLine) : String :=
  "=proc stack=\n" ++ traceText trace ++ "\n=host=\n" ++ why.details ++ "\n"

end ProcEngine.Diagnostics
