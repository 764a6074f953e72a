import ProcEngine.Proofs.Context.Binding
/-!
# The stages of a construction

The routine that constructs an object is paused twice at most: while the initializer of the type
runs, and while its constructor does. What a step of it comes to depends on the stage that it is at
(`Construction.Stage.move`), and each call that it makes takes it to a later one.
-/

namespace ProcEngine

namespace Construction

inductive Stage
  /-- Nothing has been done yet. -/
  | begun
  /-- The initializer has been called. -/
  | initialized
  /-- The constructor has been called. -/
  | constructed

def Stage.rank : Stage → Nat
  | begun => 0
  | initialized => 1
  | constructed => 2

/-- What a step comes to: a call after which another stage is reached, or the return of the
object. -/
inductive Move
  | calls (p : ProcRef) (i : Invocation) (next : Stage)
  | returns

section Chain

variable (fuel : Nat) (object : ObjectRef) (i : Invocation)

/-- Runs the hook for created objects, if the type has hooks, and says whether the constructor is
wanted. -/
def consult : Act Runtime Bool := do
  let d ← Runtime.ask fun rt => rt.objects.definition object
  match d.hooks with
  | none => return true
  | some hooks =>
    Runtime.onStore ((hooks.created object i.arguments).run (Store.serve fuel))
    return hooks.callsNew

/-- Calls the constructor, if it is wanted and there is one. -/
def conclude : Act Runtime Move := do
  if ← consult fuel object i then
    match ← Runtime.ask fun rt => rt.objects.proc? object constructorName with
    | some p =>
      return .calls p { src := some object, usr := i.usr, arguments := i.arguments } .constructed
    | none => return .returns
  else return .returns

def Stage.move : Stage → Act Runtime Move
  | begun => do
    let d ← Runtime.ask fun rt => rt.objects.definition object
    match d.initializer with
    | some p => return .calls p { src := some object } .initialized
    | none => conclude fuel object i
  | initialized => conclude fuel object i
  | constructed => return .returns

/-- What is left of the routine at a stage. -/
def Stage.rest : Stage → Routine
  | begun => routine i
  | initialized => do
    let wanted : Bool ← host (.created object i.arguments)
    if wanted then
      let _ ← runConstructor object i
    return .object object
  | constructed => .done (.object object)

def Move.pause : Move → Pause
  | calls p j next => .invoke p j fun _ => next.rest object i
  | returns => .finished (.object object)

end Chain

/-! ### What a step comes to -/

variable {fuel : Nat} {drive : Drive} {object : ObjectRef} {i : Invocation}

theorem advance_host_bind (serve : Serve) (r : HostRequest) (next : r.Answer → Routine) :
    Routine.advance serve (host r >>= next) = serve r >>= fun answer =>
      Routine.advance serve (next answer) := by
  funext rt
  simp only [host, Program.request, bind, Program.bind, Routine.advance, Act.bind]
  cases serve r rt <;> rfl

theorem host_bind_bind {α : Type} (r : HostRequest) (f : r.Answer → Program RoutineCalls α)
    (next : α → Routine) :
    host r >>= f >>= next = host r >>= fun answer => f answer >>= next := by
  simp only [host, Program.request, bind, Program.bind, Program.ask.injEq, heq_eq_eq, true_and]
  funext answer
  cases answer <;> rfl

theorem advance_runConstructor (serve : Serve) (next : Value → Routine) :
    Routine.advance serve (runConstructor object i >>= next) = (do
      match ← serve (.method? object constructorName) with
      | some p =>
        return Pause.invoke p { src := some object, usr := i.usr, arguments := i.arguments } next
      | none => Routine.advance serve (next .null)) := by
  rw [runConstructor, host_bind_bind, advance_host_bind]
  refine congrArg (serve _ >>= ·) (funext fun found => ?_)
  cases found <;> rfl

theorem advance_runInitializer (serve : Serve) (next : Value → Routine) :
    Routine.advance serve (runInitializer object >>= next) = (do
      match ← serve (.initializer object) with
      | some p => return Pause.invoke p { src := some object } next
      | none => Routine.advance serve (next .null)) := by
  rw [runInitializer, host_bind_bind, advance_host_bind]
  refine congrArg (serve _ >>= ·) (funext fun found => ?_)
  cases found <;> rfl

theorem advance_initialized :
    Routine.advance (Runtime.serve fuel drive) (Stage.initialized.rest object i) = (do
      return (← conclude fuel object i).pause object i) := by
  have hadvance : Routine.advance (Runtime.serve fuel drive) (Stage.initialized.rest object i) =
      consult fuel object i >>= fun wanted => Routine.advance (Runtime.serve fuel drive)
        (if wanted then runConstructor object i >>= fun _ => pure (.object object)
          else pure (.object object)) :=
    advance_host_bind _ (.created object i.arguments) _
  rw [hadvance]
  funext rt
  simp only [conclude, Act.bind_apply]
  cases consult fuel object i rt with
  | ok wanted rt₁ =>
    cases wanted with
    | false => rfl
    | true =>
      simp only [if_true, advance_runConstructor, Act.bind_apply, Runtime.serve, Runtime.ask]
      cases rt₁.objects.proc? object constructorName with
      | error e => rfl
      | ok p => cases p <;> rfl
  | fault e rt₁ => rfl
  | breach b rt₁ => rfl
  | exhausted => rfl

theorem advance_begun (hsrc : i.src = some object) :
    Routine.advance (Runtime.serve fuel drive) (Stage.begun.rest object i) = (do
      return (← Stage.begun.move fuel object i).pause object i) := by
  have hrest : Stage.begun.rest object i =
      (runInitializer object >>= fun _ => Stage.initialized.rest object i) := by
    simp only [Stage.rest, routine, hsrc]
  rw [hrest, advance_runInitializer, advance_initialized]
  funext rt
  simp only [Stage.move, Act.bind_apply, Runtime.serve, Runtime.ask]
  cases rt.objects.definition object with
  | error e => rfl
  | ok d => cases hd : d.initializer <;> simp only [Except.map, hd] <;> rfl

/-- What a step of the routine comes to. -/
theorem advance_rest (hsrc : i.src = some object) (stage : Stage) :
    Routine.advance (Runtime.serve fuel drive) (stage.rest object i) = (do
      return (← stage.move fuel object i).pause object i) := by
  cases stage with
  | begun => exact advance_begun hsrc
  | initialized => exact advance_initialized
  | constructed => rfl

theorem conclude_calls {p : ProcRef} {j : Invocation} {next : Stage} {rt rt' : Runtime}
    (h : conclude fuel object i rt = .ok (.calls p j next) rt') : next = .constructed := by
  obtain ⟨wanted, rt₁, _, h⟩ := Act.of_bind_eq_ok h
  cases wanted with
  | false => cases h
  | true =>
    obtain ⟨found, rt₂, _, h⟩ := Act.of_bind_eq_ok h
    cases found <;> cases h
    rfl

/-- A call takes the routine to a later stage. -/
theorem rank_of_move {stage next : Stage} {p : ProcRef} {j : Invocation} {rt rt' : Runtime}
    (h : stage.move fuel object i rt = .ok (.calls p j next) rt') : stage.rank < next.rank := by
  cases stage with
  | begun =>
    obtain ⟨d, rt₁, _, h⟩ := Act.of_bind_eq_ok h
    cases hinitializer : d.initializer with
    | some p =>
      rw [hinitializer] at h
      cases h
      exact Nat.zero_lt_one
    | none =>
      rw [hinitializer] at h
      obtain rfl := conclude_calls h
      exact Nat.zero_lt_two
  | initialized =>
    obtain rfl := conclude_calls h
    exact Nat.one_lt_two
  | constructed => cases h

/-- Whoever looks up the type of an object that has been deleted raises a fault. -/
theorem definition_deleted {rt : Runtime} (hgone : ¬ rt.objects.isAlive object) :
    rt.objects.definition object = .error (.deletedObject object) := by
  have hnone : rt.objects.get? object = none := Option.not_isSome_iff_eq_none.mp hgone
  simp only [ObjectTable.definition, ObjectTable.get, hnone]
  rfl

theorem conclude_deleted {rt : Runtime} (hgone : ¬ rt.objects.isAlive object) :
    conclude fuel object i rt = .fault (.deletedObject object) rt := by
  simp only [conclude, consult, Act.bind_apply, Runtime.ask, definition_deleted hgone]

/-- The type is looked up at both stages at which anything is called. -/
theorem move_deleted {rt : Runtime} {stage : Stage} (hgone : ¬ rt.objects.isAlive object)
    (hstage : stage ≠ .constructed) : stage.move fuel object i rt =
      .fault (.deletedObject object) rt := by
  cases stage with
  | begun => simp only [Stage.move, Act.bind_apply, Runtime.ask, definition_deleted hgone]
  | initialized => exact conclude_deleted hgone
  | constructed => exact absurd rfl hstage

/-- The constructor is looked up once more when the hook has run. -/
theorem conclude_deleted_by_hook {rt rt' : Runtime}
    (hconsult : consult fuel object i rt = .ok true rt')
    (hgone : ¬ rt'.objects.isAlive object) : conclude fuel object i rt =
      .fault (.deletedObject object) rt' := by
  simp only [conclude, Act.bind_apply, hconsult, if_true, Runtime.ask, ObjectTable.proc?,
    definition_deleted hgone]
  rfl

/-! ### The activation that constructs -/

variable (object i) in
/-- How the frame goes on at a stage, once it has got there by a call. -/
def Stage.frame (stage : Stage) : RoutineFrame where
  passThrough := true
  start j _ := routine j
  rest := match stage with
    | begun => none
    | initialized | constructed => some fun _ => stage.rest object i

end Construction

open Construction

namespace Activation

/-- The activation constructs the object for this invocation, and is at the stage. What was returned
to it makes no difference. -/
structure AtStage (a : Activation) (object : ObjectRef) (i : Invocation)
    (stage : Stage) : Prop where
  invocation : a.invocation = i
  src : i.src = some object
  frame : ∃ returned, a.frame = .routine { stage.frame object i with returned }

/-- The activation after a call that has taken it to a stage. -/
def turned (a : Activation) (object : ObjectRef) (i : Invocation) (stage : Stage) : Activation :=
  a.withFrame (.routine (stage.frame object i))

namespace AtStage

variable {a : Activation} {object : ObjectRef} {i : Invocation} {stage : Stage}
  (h : a.AtStage object i stage)
include h

theorem receive (v : Value) : (a.receive v).AtStage object i stage := by
  obtain ⟨returned, hframe⟩ := h.frame
  simp only [Activation.receive, hframe]
  exact ⟨h.invocation, h.src, some v, rfl⟩

theorem turned (next : Stage) : (a.turned object i next).AtStage object i next :=
  ⟨h.invocation, h.src, none, rfl⟩

/-- What is left of the routine tells its stage. -/
theorem unique {stage' : Stage} (h' : a.AtStage object i stage') : stage = stage' := by
  obtain ⟨returned, hframe⟩ := h.frame
  obtain ⟨returned', hframe'⟩ := h'.frame
  have hrest := congrArg RoutineFrame.rest (Frame.routine.inj (hframe.symm.trans hframe'))
  -- After the initializer there is still something to ask the host, after the constructor there is
  -- not.
  have hasks : Stage.initialized.rest object i ≠ Stage.constructed.rest object i := by
    intro hsame
    cases hsame
  cases stage with
  | begun => cases stage' with
    | begun => rfl
    | initialized | constructed => cases hrest
  | initialized => cases stage' with
    | begun => cases hrest
    | initialized => rfl
    | constructed => exact (hasks (congrFun (Option.some.inj hrest) .null)).elim
  | constructed => cases stage' with
    | begun => cases hrest
    | initialized => exact (hasks (congrFun (Option.some.inj hrest) .null).symm).elim
    | constructed => rfl

theorem fetch : a.fetch = (none, a) := by
  obtain ⟨returned, hframe⟩ := h.frame
  simp only [Activation.fetch, hframe]

theorem resumption {returned : Option Value} :
    a.resumption { stage.frame object i with returned } = .ok (stage.rest object i) := by
  cases stage with
  | begun => simp only [Activation.resumption, Stage.frame, if_true, h.invocation, Stage.rest]
  | initialized | constructed => rfl

/-- The step at a stage. -/
theorem step (fuel : Nat) (drive : Drive) (instr : Option Instr) (rt : Runtime) :
    a.step fuel drive instr rt = match stage.move fuel object i rt with
      | .ok (.calls p j next) rt => (a.turned object i next).call p j rt
      | .ok .returns rt => .ok (a.withResult (.object object), .returned) rt
      | .fault e rt => .fault e rt
      | .breach b rt => .breach b rt
      | .exhausted => .exhausted := by
  obtain ⟨returned, hframe⟩ := h.frame
  simp only [Activation.step, hframe, stepRoutine_eq, h.resumption, Act.bind_apply, Act.lift_apply,
    advance_rest h.src stage]
  cases hmove : stage.move fuel object i rt with
  | ok move rt₁ =>
    cases move with
    | calls p j next =>
      have hrank := rank_of_move hmove
      cases next with
      | begun => cases hrank
      | initialized | constructed => rfl
    | returns => rfl
  | fault e rt₁ => rfl
  | breach b rt₁ => rfl
  | exhausted => rfl

end AtStage

end Activation

end ProcEngine
