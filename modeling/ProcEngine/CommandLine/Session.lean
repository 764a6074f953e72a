import ProcEngine.Builtins
import ProcEngine.CommandLine.Options
import ProcEngine.CommandLine.Terminal
import ProcEngine.Config.Basic
import ProcEngine.Diagnostics
import ProcEngine.Log.Filter
import ProcEngine.Scheduler
/-!
# Running and checking worlds

`check` loads a world and lists its types and global procs. `run` loads a world, starts its entry
proc and then lets ticks pass until nothing is parked, until what is parked waits for the outside
alone, or until a given number of ticks has passed, which is looked at after a tick only.

What happens in the engine is logged through the filter of the environment, or through that of the
configuration if the environment has none that can be read.
-/

namespace ProcEngine.CommandLine

open Log (Line Filter)

inductive Failure
  | config (why : ConfigError)
  | unreadable (path : String) (why : FileError)
  | unloadable (path : String) (why : LoadError)
  | noEntry (name : String) (why : Fault)
  | breach (why : Breach)
  | exhausted

def Failure.message : Failure → String
  | config why => why.message
  | unreadable path why => s!"Failed to read world {path}: {why.message}"
  | unloadable path why => s!"Failed to load world {path}: {why.message}"
  | noEntry name why => s!"Entry proc '{name}' not found: {why.message}"
  | breach why => why.message
  | exhausted => "out of steps"

def Failure.exitCode : Failure → UInt32
  | config _ | unreadable .. | unloadable .. | noEntry .. => 1
  | breach _ | exhausted => 101

/-! ### Lines -/

def loaded (s : LoadSummary) : Line where
  level := .info
  target := "dream_core::loader"
  message := "world loaded"
  fields := [("types", toString s.types), ("procs", toString s.procs)]

def aborted (context : ContextId) (why : Fault) (depth : Nat) : Line where
  level := .warn
  target := "dream_core::context"
  message := "context aborted"
  fields := [("context", context.text), ("depth", toString depth), ("error", why.message)]

/-- A report of a fault. No trace of the host's own calls is kept. -/
def reported (context : ContextId) (why : Fault) (trace : List TraceLine) : Line where
  level := .error
  target := "dream_core::diagnostics"
  message :=
    s!"Exception occurred: {Diagnostics.message context why}\n" ++
      s!"{Diagnostics.dump why trace}disabled backtrace"

def worldLine (line : String) (src : Option ObjectRef) : Line where
  level := .info
  target := "world"
  message := line
  fields := src.toList.map fun o => ("src", o.text)

def ofRun (level : Log.Level) (message : String) (fields : List (String × String)) : Line where
  level
  target := "dream_core::cli"
  message
  fields

def eventLines : Event → List Line
  | .fault context why trace => [aborted context why trace.length, reported context why trace]
  | .worldLine line src => [worldLine line src]
  | .completed _ v => [ofRun .info "entry proc returned" [("result", v.display)]]
  | .native _ | .created .. | .read .. | .written .. | .deleted .. | .allocated _ | .followed .. =>
    []

/-! ### Getting ready -/

variable {m : Type → Type} [Monad m] (t : Terminal m)

def Terminal.logAll (f : Filter) (lines : List Line) : m Unit :=
  (lines.filter f.shows).forM t.log

/-- Adds what the file `.env` says, if there is one. -/
def environment (env : Environment) : m Environment := do
  match ← t.read ".env" with
  | .ok text => return env.load text
  | .error _ => return env

/-- The filter of the environment, else that of the configuration with what is wrong in it left
out. -/
def filter (env : Environment) (c : Config) : Filter × List (String × Log.DirectiveError) :=
  match (env.get? "RUST_LOG").map Filter.parse with
  | some (.ok f) => (f, [])
  | some (.error _) | none => Filter.parseLenient c.logFilter

/-- Loads a world into a fresh runtime that has the builtins. -/
def openWorld (c : Config) (path : String) : ExceptT Failure m (Runtime × LoadSummary) := do
  match ← t.read path with
  | .error why => throw (.unreadable path why)
  | .ok text =>
    match (Builtins.install { maxDepth := c.maxDepth.toNat }).loadWorld Builtins.registry text with
    | (.ok summary, rt) => return (rt, summary)
    | (.error why, _) => throw (.unloadable path why)

/-! ### Checking -/

def listing (rt : Runtime) : List String :=
  s!"{rt.objects.types.size} types, {rt.globals.size} global procs" ::
    rt.objects.types.keys.map (fun path => s!"  type {path}") ++ rt.globals.keys.map fun name =>
      s!"  proc {name}"

/-! ### Running -/

structure Session where
  filter : Filter
  tickLimit : Option UInt64
  tickLength : UInt64
  runtime : Runtime
  scheduler : Scheduler := {}

inductive Next
  | tick
  | stop (why : List Line)
  deriving DecidableEq

namespace Session

def next (s : Session) : Next :=
  if 0 < s.scheduler.tick && s.tickLimit.any fun limit => limit ≤ s.scheduler.tick then
    .stop [ofRun .warn "tick limit reached" [("pending", toString s.scheduler.pending)]]
  else if s.scheduler.isIdle then .stop []
  else if s.scheduler.hasSleepers then .tick
  else .stop
    [ofRun .warn "only external waits left, stopping" [("waiting", toString s.scheduler.pending)]]

/-- Lets the engine act, and logs what happened. -/
def act {α : Type} (s : Session) (x : Act Runtime (α × Scheduler)) : ExceptT Failure m Session := do
  let settle (rt : Runtime) : m Runtime := do
    t.logAll s.filter (rt.store.journal.toList.flatMap eventLines)
    return { rt with store := { rt.store with journal := #[] } }
  match x s.runtime with
  | .ok (_, scheduler) rt => return { s with runtime := ← settle rt, scheduler }
  | .fault _ rt => return { s with runtime := ← settle rt }
  | .breach why _ => throw (.breach why)
  | .exhausted => throw .exhausted

def completion : Completion := fun v => do
  let _ ← Program.request (i := HostCalls) (.table (.note (.completed "entry" v)))
  return ()

def start (fuel : Nat) (s : Session) (entry : String) : ExceptT Failure m Session := do
  match s.runtime.global entry with
  | .error why => throw (.noEntry entry why)
  | .ok p => s.act t (s.scheduler.callAsync fuel p {} (some completion))

/-- Lets ticks pass until the session stops. -/
def proceed : (fuel : Nat) → Session → ExceptT Failure m Session
  | 0, _ => throw .exhausted
  | fuel + 1, s =>
    match s.next with
    | .stop why => do
      t.logAll s.filter why
      return s
    | .tick => do
      t.pause s.tickLength
      proceed fuel (← s.act t (s.scheduler.advance fuel))

end Session

def runWorld (fuel : Nat) (s : Session) (entry : String) : ExceptT Failure m Unit := do
  let s ← s.start t fuel entry
  let s ← s.proceed t fuel
  t.logAll s.filter [ofRun .info "world idle" [("ticks", toString s.scheduler.tick)]]

/-! ### Commands -/

def perform (fuel : Nat) (env : Environment) (o : Options) : ExceptT Failure m Unit := do
  let env ← ExceptT.lift (environment t env)
  let c ← match ← ExceptT.lift (Config.load t.read env o.config) with
    | .ok c => pure c
    | .error why => throw (.config why)
  let (filter, ignored) := CommandLine.filter env c
  for (piece, why) in ignored do
    t.complain ("ignoring \x60" ++ piece ++ "\x60: " ++ why.message)
  let loadWorld (path : String) : ExceptT Failure m Runtime := do
    let (rt, summary) ← openWorld t c path
    t.logAll filter [loaded summary]
    return rt
  match o.command with
  | .run world entry maxTicks => do
    let runtime ← loadWorld world
    runWorld t fuel {
      filter
      tickLimit := maxTicks <|> c.maxTicks
      tickLength := max c.tickLength 1
      runtime } entry
  | .check world => (listing (← loadWorld world)).forM fun line => t.print line

/-- Carries out a command and gives the exit code. -/
def run (fuel : Nat) (env : Environment) (o : Options) : m UInt32 := do
  match ← (perform t fuel env o).run with
  | .ok () => return 0
  | .error why => do
    t.complain s!"Error: {why.message}"
    return why.exitCode

end ProcEngine.CommandLine
