import ProcEngine.Builtins
import ProcEngine.CommandLine.Session
import ProcEngine.Diagnostics
import ProcEngine.Host.Action
import ProcEngine.Host.HookPlan
import ProcEngine.Json.Writer
import ProcEngine.Main
import ProcEngine.Proofs.Arguments
import ProcEngine.Proofs.CommandLine.Deeds
import ProcEngine.Proofs.CommandLine.Limits
import ProcEngine.Proofs.Context.Binding
import ProcEngine.Proofs.Context.Construction
import ProcEngine.Proofs.Context.Locals
import ProcEngine.Proofs.Context.Recursion
import ProcEngine.Proofs.Context.Suspension
import ProcEngine.Proofs.Evaluation.Stack
import ProcEngine.Proofs.Object.Addressing
import ProcEngine.Proofs.Object.Assignment
import ProcEngine.Proofs.Object.Deletion
import ProcEngine.Proofs.Object.Retirement
import ProcEngine.Proofs.Scheduler.Custody
import ProcEngine.Proofs.Scheduler.Order
import ProcEngine.Proofs.Scheduler.Punctuality
import ProcEngine.Proofs.Scheduler.Queue
import ProcEngine.Proofs.Scheduler.Reports
import ProcEngine.Proofs.Scheduler.Seclusion
import ProcEngine.Proofs.Scheduler.Sleep
import ProcEngine.Proofs.Scheduler.Soundness
import ProcEngine.Proofs.Scheduler.Starts
import ProcEngine.Proofs.Script.Forward
import ProcEngine.Proofs.Value.Arithmetic
import ProcEngine.Proofs.Value.Comparison
import ProcEngine.Proofs.World.Atomicity
import ProcEngine.Proofs.World.Inheritance
import ProcEngine.Proofs.World.Knots
import ProcEngine.Proofs.World.Loads
import ProcEngine.Proofs.World.RoundTrip
import ProcEngine.Proofs.World.SuperCalls
import ProcEngine.Scheduler
