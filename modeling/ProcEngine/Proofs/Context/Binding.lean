import ProcEngine.Proofs.Arguments
import ProcEngine.Proofs.Context.Course
/-!
# Arguments are bound once

An activation binds its arguments in its first step and looks at them no more: what it does
afterwards would be the same with any others (`Activation.step_withArguments`). A script has the
vector for its first local slots, a handler gets it and is over, and a routine is started with it,
so that all that is ever left of the routine has been started with it.
-/

namespace ProcEngine

namespace Program

variable {i : Interface} {α : Type}

/-- What is left of a program when some of its requests have been answered. -/
inductive Remains : Program i α → Program i α → Prop
  | all (r : Program i α) : Remains r r
  | after {q : i.Request} {next : Except Fault (i.Answer q) → Program i α}
    (answer : Except Fault (i.Answer q))
    {r : Program i α} : Remains (next answer) r → Remains (.ask q next) r

theorem Remains.trans {r r' r'' : Program i α} (h : Remains r r') (h' : Remains r' r'') :
    Remains r r'' := by
  induction h with
  | all => exact h'
  | after answer _ ih => exact .after answer (ih h')

end Program

/-- How a routine goes on after a pause, whatever it is handed. -/
def Pause.rest? : Pause → Option (Value → Routine)
  | .finished _ => none
  | .invoke _ _ rest | .sleep _ rest | .wait rest => some rest

theorem Routine.advance_remains {serve : Serve} {r : Routine} {rt rt' : Runtime} {pause : Pause}
    (h : r.advance serve rt = .ok pause rt') {rest : Value → Routine}
    (hrest : pause.rest? = some rest) (v : Value) :
    r.Remains (rest v) := by
  induction r generalizing rt with
  | done v =>
    cases h
    cases hrest
  | fail e => cases h
  | ask q next ih =>
    cases q with
    | host r =>
      simp only [advance] at h
      split at h
      · exact .after _ (ih _ h)
      · exact .after _ (ih _ h)
      · cases h
      · cases h
    | invoke p i | sleep ticks | wait =>
      cases h
      cases hrest
      exact .after (.ok v) (.all _)

namespace Activation

/-- Whether the activation has taken a step. A handler has none to take after its first. -/
def IsStarted (a : Activation) : Prop :=
  match a.frame with
  | .script f => f.locals.isSome
  | .handler _ => False
  | .routine f => f.rest.isSome

def PassesThrough (a : Activation) : Prop := ∃ f, a.frame = .routine f ∧ f.passThrough

/-- The invocation as the body of the proc gets to see it. -/
def given (a : Activation) (bound : List Value) : Invocation :=
  { a.invocation with arguments := { positional := bound } }

/-- What an activation reports when its routine has come to a pause. -/
def pauses (a : Activation) (f : RoutineFrame) : Pause → Act Runtime (Activation × Signal)
  | .finished v => return (a.withResult v, .returned)
  | .invoke p i rest =>
    (a.withFrame (.routine { f with rest := some rest, returned := none })).call p i
  | .sleep ticks rest =>
    return (a.withFrame (.routine { f with rest := some rest, returned := none }),
      .deferred (.ticks ticks))
  | .wait rest =>
    return (a.withFrame (.routine { f with rest := some rest, returned := none }),
      .deferred .external)

theorem stepRoutine_eq (serve : Serve) (a : Activation) (f : RoutineFrame) :
    a.stepRoutine serve f = (do a.pauses f (← (← a.resumption f).advance serve)) := by
  simp only [stepRoutine]
  refine congrArg _ (funext fun routine => congrArg _ (funext fun pause => ?_))
  cases pause <;> rfl

/-- The first step, once the arguments are bound. A script whose slots there is no room for does not
take it. -/
def begin (a : Activation) (bound : List Value) (fuel : Nat) (drive : Drive) :
    Act Runtime (Activation × Signal) :=
  match a.frame with
  | .script f => do
    Act.need (f.HasRoom bound) (f.shortage bound)
    return (a.withFrame (.script { f with
      locals := some (bound ++ List.replicate f.extra.toNat Value.null).toArray }), .proceed)
  | .handler run => do
    let v ← (run (a.given bound)).run (Runtime.serve fuel drive)
    return (a.withResult v, .returned)
  | .routine f => do
    a.pauses f
      (← (f.start (a.given bound) (f.returned.getD .null)).advance (Runtime.serve fuel drive))

def withArguments (a : Activation) (arguments : Arguments) : Activation :=
  { a with invocation := { a.invocation with arguments } }

variable {a b : Activation}

/-! ### The first step -/

theorem step_first (hstarted : ¬ a.IsStarted) (hthrough : ¬ a.PassesThrough) (fuel : Nat)
    (drive : Drive) (instr : Option Instr) (rt : Runtime) :
    a.step fuel drive instr rt = match a.bind with
      | .error e => .fault e rt
      | .ok bound => a.begin bound fuel drive rt := by
  simp only [IsStarted, PassesThrough] at hstarted hthrough
  cases hframe : a.frame with
  | script f =>
    have hlocals : f.locals = none := by simpa [hframe] using hstarted
    simp only [step, hframe, stepScript, hlocals, Act.bind_apply, Act.lift_apply, begin]
    cases a.bind <;> rfl
  | handler run =>
    simp only [step, hframe, Act.bind_apply, Act.lift_apply, bound, begin]
    cases a.bind <;> rfl
  | routine f =>
    have hrest : f.rest = none := by simpa [hframe] using hstarted
    have hbinds : f.passThrough = false := by simpa [hframe] using hthrough
    simp only [step, hframe, stepRoutine_eq, resumption, hrest, hbinds, bound, begin,
      Act.bind_apply, Act.lift_apply, Bool.false_eq_true, if_false]
    cases a.bind <;> rfl

theorem IsFresh.not_started (h : a.IsFresh) : ¬ a.IsStarted := by
  obtain ⟨body, hbody⟩ := h
  simp only [IsStarted, hbody]
  cases body <;> simp [Body.frame]

/-! ### The steps after it -/

section Arguments

variable (a) (args : Arguments)

/-- The report of an activation with other arguments. -/
def rewriting (args : Arguments) (x : Act Runtime (Activation × Signal)) :
    Act Runtime (Activation × Signal) := do
  let (b, signal) ← x
  return (b.withArguments args, signal)

theorem receive_withArguments (v : Value) :
    (a.withArguments args).receive v = (a.receive v).withArguments args := by
  simp only [receive, withArguments]
  split <;> rfl

theorem fetch_withArguments : (a.withArguments args).fetch =
    (a.fetch.1, a.fetch.2.withArguments args) := by
  simp only [fetch, withArguments]
  split
  · split <;> rfl
  · rfl

theorem rewriting_bind {α : Type} (x : Act Runtime α) (f : α → Act Runtime (Activation × Signal)) :
    rewriting args (x >>= f) = x >>= fun y => rewriting args (f y) := by
  funext rt
  simp only [rewriting, Act.bind_apply]
  cases x rt <;> rfl

theorem meet_withArguments (fuel : Nat) (d : Demand) :
    (a.withArguments args).meet fuel d = rewriting args (a.meet fuel d) := by
  have hcall (p : ProcRef) (i : Invocation) : (a.withArguments args).call p i =
      rewriting args (a.call p i) := rfl
  cases d with
  | proceed | result | sleep | finish => rfl
  | read =>
    simp only [meet, rewriting_bind]
    refine congrArg _ (funext fun v => ?_)
    exact congrArg (fun b => (pure (b, Signal.proceed) : Act Runtime (Activation × Signal)))
      (receive_withArguments a args v)
  | write | delete =>
    simp only [meet, rewriting_bind]
    rfl
  | call | callMethod | construct =>
    simp only [meet, rewriting_bind, ← hcall]
    rfl
  | callSuper =>
    simp only [meet, rewriting_bind]
    refine congrArg _ (funext fun rt => ?_)
    have hproc : (a.withArguments args).proc = a.proc := rfl
    rw [hproc]
    cases (rt.proc a.proc).overridden <;> rfl

/-- What an activation does after its first step does not depend on its arguments. -/
theorem step_withArguments (hstarted : a.IsStarted) (fuel : Nat) (drive : Drive)
    (instr : Option Instr) :
    (a.withArguments args).step fuel drive instr = rewriting args (a.step fuel drive instr) := by
  have hframe' : (a.withArguments args).frame = a.frame := rfl
  simp only [IsStarted] at hstarted
  cases hframe : a.frame with
  | script f =>
    simp only [hframe] at hstarted
    obtain ⟨slots, hslots⟩ := Option.isSome_iff_exists.mp hstarted
    simp only [step, hframe', hframe, stepScript, hslots]
    cases instr with
    | none => rfl
    | some i =>
      simp only [rewriting_bind, ← meet_withArguments]
      rfl
  | handler run => simp [hframe] at hstarted
  | routine f =>
    simp only [hframe] at hstarted
    obtain ⟨rest, hrest⟩ := Option.isSome_iff_exists.mp hstarted
    simp only [step, hframe', hframe, stepRoutine_eq, resumption, hrest, rewriting_bind]
    refine congrArg _ (funext fun r => congrArg _ (funext fun pause => ?_))
    cases pause <;> rfl

end Arguments

end Activation

/-- An instruction changes what is in the slots, and not how many there are. -/
theorem ScriptFrame.exec_size {f f' : ScriptFrame} {src usr : Option ObjectRef}
    {i : Instr} {d : Demand}
    (h : f.exec src usr i = .ok (d, f')) : f'.extra = f.extra ∧ f'.slots.size = f.slots.size := by
  have hpop {f : ScriptFrame} {q : Value × ScriptFrame} (h : f.pop = .ok q) :
      q.2.extra = f.extra ∧ q.2.locals = f.locals := by
    obtain ⟨v, f'⟩ := q
    obtain ⟨_, rfl⟩ := pop_ok h
    exact ⟨rfl, rfl⟩
  have hpopArguments {f : ScriptFrame} {argc : UInt64} {q : List Value × ScriptFrame}
      (h : f.popArguments argc = .ok q) :
      q.2.extra = f.extra ∧ q.2.locals = f.locals := by
    obtain ⟨args, f'⟩ := q
    obtain ⟨_, rfl⟩ := popArguments_ok h
    exact ⟨rfl, rfl⟩
  cases i <;> simp only [exec, binary, bind, Except.bind, pure, Except.pure] at h <;>
    (repeat' split at h) <;>
    cases h <;> grind [push, slots]

namespace Activation

/-! ### What is kept -/

/-- A script has room for the vector and its own slots, and a routine goes on with what was started
with the vector. -/
def Holds (a : Activation) : Prop :=
  match a.frame with
  | .script f => f.locals.isSome → ∃ bound, a.bind = .ok bound ∧ f.slots.size = f.room bound
  | .handler _ => True
  | .routine f => ¬ f.passThrough → ∀ rest, f.rest = some rest →
    ∃ bound, a.bind = .ok bound ∧ ∀ v, (f.start (a.given bound) .null).Remains (rest v)

variable {a b : Activation}

theorem IsFresh.fetch (h : a.IsFresh) : a.fetch = (none, a) := by
  obtain ⟨body, hbody⟩ := h
  simp only [Activation.fetch, hbody]
  cases body <;> rfl

theorem IsFresh.holds (h : a.IsFresh) : a.Holds := by
  obtain ⟨body, hbody⟩ := h
  simp only [Holds, hbody]
  cases body <;> simp [Body.frame]

theorem IsStarted.fetch (h : a.IsStarted) : a.fetch.2.IsStarted := by
  simp only [Activation.fetch]
  split
  · rename_i f hframe
    split
    · rename_i hlocals
      simp only [IsStarted, ScriptFrame.fetch]
      split <;> exact hlocals
    · exact h
  · exact h

theorem Holds.fetch (h : a.Holds) : a.fetch.2.Holds := by
  simp only [Activation.fetch]
  split
  · rename_i f hframe
    simp only [Holds, hframe] at h
    split
    · simp only [Holds, ScriptFrame.fetch]
      split <;> exact h
    · simpa only [Holds, hframe] using h
  · exact h

theorem IsStarted.receive (h : a.IsStarted) (v : Value) : (a.receive v).IsStarted := by
  simp only [Activation.receive]
  split <;> rename_i hframe
  · simp only [IsStarted, hframe] at h
    exact h
  · simp only [IsStarted, hframe] at h
    exact h
  · exact h

theorem Holds.receive (h : a.Holds) (v : Value) : (a.receive v).Holds := by
  simp only [Activation.receive]
  split <;> rename_i hframe
  · simp only [Holds, hframe] at h
    exact h
  · simp only [Holds, hframe] at h
    exact h
  · exact h

theorem Holds.withResult (h : a.Holds) (v : Value) : (a.withResult v).Holds := h

theorem Leaves.isStarted {instr : Option Instr} {signal : Signal} (h : a.Leaves instr b signal)
    (hsignal : signal ≠ .returned) : b.IsStarted := by
  cases h with
  | works _ hframe hlocals _ => simpa only [IsStarted, hframe] using hlocals
  | callsScript _ hlocals => exact hlocals
  | sleepsScript _ hlocals => exact hlocals
  | callsRoutine | defersRoutine => rfl
  | ends => exact absurd rfl hsignal

theorem stepScript_holds {fuel : Nat} {f : ScriptFrame} (hframe : a.frame = .script f)
    (hholds : a.Holds) {instr : Option Instr} {signal : Signal} {rt rt' : Runtime}
    (h : a.stepScript fuel f instr rt = .ok (b, signal) rt') (hsignal : signal ≠ .returned) :
    b.Holds := by
  simp only [stepScript] at h
  cases hlocals : f.locals with
  | none =>
    simp only [hlocals, Act.bind_apply, Act.lift_apply] at h
    cases hbind : a.bind with
    | error e => simp [hbind] at h
    | ok bound =>
      simp only [hbind, ← Act.bind_apply] at h
      obtain ⟨_, h⟩ := Act.of_need h
      cases h
      exact fun _ =>
        ⟨bound, hbind, by simp [ScriptFrame.start, ScriptFrame.slots, ScriptFrame.room]⟩
  | some slots =>
    rw [hlocals] at h
    cases instr with
    | none =>
      cases h
      exact absurd rfl hsignal
    | some i =>
      simp only [Act.bind_apply, Act.lift_apply] at h
      cases hexec : f.exec a.src a.usr i with
      | error e => simp [hexec] at h
      | ok q =>
        obtain ⟨d, f'⟩ := q
        rw [hexec] at h
        obtain ⟨hextra, hsize⟩ := ScriptFrame.exec_size hexec
        have hheld : (a.withFrame (.script f')).Holds := by
          simp only [Holds, hframe] at hholds
          intro _
          obtain ⟨bound, hbind, hroom⟩ := hholds (by rw [hlocals]; rfl)
          exact ⟨bound, hbind, by rw [hsize, hroom, ScriptFrame.room, ScriptFrame.room, hextra]⟩
        obtain ⟨_, rfl | ⟨v, rfl | rfl⟩⟩ | ⟨_, rfl, _⟩ | ⟨rfl, _⟩ | ⟨rfl, _⟩ := meet_ok h
        · exact hheld
        · exact hheld.withResult v
        · exact hheld.receive v
        · exact hheld
        · exact hheld
        · exact absurd rfl hsignal

theorem pauses_ok {f : RoutineFrame} {pause : Pause} {signal : Signal} {rt rt' : Runtime}
    (h : a.pauses f pause rt = .ok (b, signal) rt') (hsignal : signal ≠ .returned) :
    ∃ rest, pause.rest? = some rest ∧
      b = a.withFrame (.routine { f with rest := some rest, returned := none }) := by
  cases pause with
  | finished v =>
    cases h
    exact absurd rfl hsignal
  | invoke p i rest =>
    obtain ⟨rfl, _⟩ := call_ok h
    exact ⟨rest, rfl, rfl⟩
  | sleep ticks rest | wait rest =>
    cases h
    exact ⟨rest, rfl, rfl⟩

theorem stepRoutine_holds {serve : Serve} {f : RoutineFrame} (hframe : a.frame = .routine f)
    (hfresh : a.IsFresh ∨ a.IsStarted) (hholds : a.Holds) {signal : Signal} {rt rt' : Runtime}
    (h : a.stepRoutine serve f rt = .ok (b, signal) rt') (hsignal : signal ≠ .returned) :
    b.Holds := by
  simp only [stepRoutine_eq, Act.bind_apply, Act.lift_apply] at h
  cases hr : a.resumption f with
  | error e => simp [hr] at h
  | ok r =>
    simp only [hr] at h
    cases hadvance : r.advance serve rt with
    | ok pause rt₁ =>
      simp only [hadvance] at h
      obtain ⟨rest, hrest, rfl⟩ := pauses_ok h hsignal
      intro hthrough rest' hrest'
      obtain rfl : rest = rest' := Option.some.inj hrest'
      have hbinds : f.passThrough = false := Bool.eq_false_iff.mpr hthrough
      have hremains (v : Value) := Routine.advance_remains hadvance hrest v
      cases hold : f.rest with
      | none =>
        have hnull : f.returned = none :=
          (hfresh.resolve_right (by simp [IsStarted, hframe, hold])).returned hframe
        simp only [resumption, hold, hbinds, Activation.bound, hnull, Bool.false_eq_true,
          if_false] at hr
        cases hbind : a.bind with
        | error e =>
          rw [hbind] at hr
          cases hr
        | ok bound =>
          rw [hbind] at hr
          cases hr
          exact ⟨bound, hbind, hremains⟩
      | some before =>
        simp only [Holds, hframe] at hholds
        obtain ⟨bound, hbind, hbefore⟩ := hholds hthrough before hold
        simp only [resumption, hold, Except.ok.injEq] at hr
        exact ⟨bound, hbind, fun v => (hbefore _).trans (hr ▸ hremains v)⟩
    | fault e rt₁ => simp [hadvance] at h
    | breach b rt₁ => simp [hadvance] at h
    | exhausted => simp [hadvance] at h

theorem step_holds {fuel : Nat} {drive : Drive} {instr : Option Instr}
    (hfresh : a.IsFresh ∨ a.IsStarted) (hholds : a.Holds) {signal : Signal} {rt rt' : Runtime}
    (h : a.step fuel drive instr rt = .ok (b, signal) rt')
    (hsignal : signal ≠ .returned) : b.Holds := by
  cases hframe : a.frame with
  | script f =>
    simp only [step, hframe] at h
    exact stepScript_holds hframe hholds h hsignal
  | handler run =>
    simp only [step, hframe, Act.bind_apply, Act.lift_apply] at h
    (repeat' split at h) <;> cases h
    exact absurd rfl hsignal
  | routine f =>
    simp only [step, hframe] at h
    exact stepRoutine_holds hframe hfresh hholds h hsignal

end Activation

/-! ### Over the life of a context -/

/-- Whoever waits has been started, and so has the innermost activation unless nothing of it has
run. -/
structure Bound (stack : List Activation) : Prop where
  innermost : ∀ a ∈ stack.head?, a.IsFresh ∨ a.IsStarted
  waiting : ∀ a ∈ stack.tail, a.IsStarted
  holds : ∀ a ∈ stack, a.Holds

namespace Bound

theorem nil : Bound [] := ⟨by simp, by simp, by simp⟩

variable {a : Activation} {callers : List Activation}

theorem cons (hfresh : a.IsFresh ∨ a.IsStarted) (hholds : a.Holds)
    (hwaiting : ∀ b ∈ callers, b.IsStarted ∧ b.Holds) :
    Bound (a :: callers) where
  innermost _ hb := Option.some.inj hb ▸ hfresh
  waiting b hb := (hwaiting b hb).1
  holds := List.forall_mem_cons.mpr ⟨hholds, fun b hb => (hwaiting b hb).2⟩

end Bound

theorem Course.bound {past : List Moment} {c : Context} (h : Course past c) : Bound c.stack := by
  induction h with
  | opened rt p i _ =>
    have hfresh : (rt.newContext.2.activate p rt.newContext.1.id i).1.IsFresh := ⟨_, rfl⟩
    exact .cons (Or.inl hfresh) hfresh.holds (by simp)
  | @step past m progress rt hbefore hunfinished hstep ih =>
    obtain ⟨top, callers, hstack, hmoves⟩ := hbefore.coherent.moves hunfinished hstep
    rw [hstack] at ih
    have hwaiting : ∀ b ∈ callers, b.IsStarted ∧ b.Holds := fun b hb =>
      ⟨ih.waiting b hb, ih.holds b (List.mem_cons_of_mem _ hb)⟩
    have htop : top.fetch.2.IsFresh ∨ top.fetch.2.IsStarted := (ih.innermost top rfl).imp
      (fun hfresh => by rwa [hfresh.fetch]) Activation.IsStarted.fetch
    have hleft {a : Activation} {signal : Signal} {rt : Runtime}
        (hreport : m.report = .ok (a, signal) rt)
        (hsignal : signal ≠ .returned) : a.IsStarted ∧ a.Holds := by
      refine ⟨(Moment.leaves_of_report hstack hreport).isStarted hsignal, ?_⟩
      rw [Moment.report_eq hstack] at hreport
      exact Activation.step_holds htop (ih.holds top List.mem_cons_self).fetch hreport hsignal
    cases hmoves with
    | works hreport | defers hreport =>
      obtain ⟨hstarted, hholds⟩ := hleft hreport (by simp)
      exact .cons (Or.inr hstarted) hholds hwaiting
    | ends => exact .nil
    | @returns a caller rest rt hreport hcallers =>
      subst hcallers
      obtain ⟨⟨hstarted, hholds⟩, hwaiting⟩ := List.forall_mem_cons.mp hwaiting
      exact .cons (Or.inr (hstarted.receive _)) (hholds.receive _) hwaiting
    | @calls a d rt hreport hdepth =>
      have hfresh : d.IsFresh := by
        cases Moment.leaves_of_report hstack hreport with
        | callsScript _ _ _ _ _ hfresh => exact hfresh
        | callsRoutine _ hfresh => exact hfresh
      exact .cons (Or.inl hfresh) hfresh.holds
        (List.forall_mem_cons.mpr ⟨hleft hreport (by simp), hwaiting⟩)
    | faults => exact .nil

namespace Moment

/-- What becomes of the arguments of those on the stack in a step. -/
structure Binds (m : Moment) (top : Activation) (callers : List Activation) : Prop where
  innermost : top.IsFresh ∨ top.IsStarted
  waiting : ∀ a ∈ callers, a.IsStarted
  /-- An activation of which nothing has run binds its arguments, and its body gets to see the
  vector. -/
  first : top.IsFresh → ¬ top.PassesThrough → m.report = match top.bind with
    | .error e => .fault e m.runtime
    | .ok bound => top.begin bound m.fuel (Context.run m.fuel) m.runtime
  /-- One that has been started would do the same with any other arguments. -/
  later : top.IsStarted → ∀ args : Arguments,
    ({ m with context := m.context.on (top.withArguments args :: callers) } : Moment).report =
      Activation.rewriting args (fun _ => m.report) m.runtime
  /-- Unless it is over it has been started. -/
  started : ∀ a signal rt, m.report = .ok (a, signal) rt → signal ≠ .returned → a.IsStarted
  holds : ∀ a ∈ top :: callers, a.Holds

variable {m : Moment} {top : Activation} {callers : List Activation}

theorem binds {past : List Moment} (h : Course past m.context)
    (hstack : m.context.stack = top :: callers) :
    m.Binds top callers := by
  have hbound := h.bound
  rw [hstack] at hbound
  exact {
    innermost := hbound.innermost top rfl
    waiting := hbound.waiting
    first := fun hfresh hthrough => by
      rw [report_eq hstack, hfresh.fetch, Activation.step_first hfresh.not_started hthrough]
    later := fun hstarted args => by
      rw [report_eq (m := { m with context := m.context.on (top.withArguments args :: callers) })
        rfl, report_eq hstack, Activation.fetch_withArguments,
        Activation.step_withArguments top.fetch.2 args hstarted.fetch]
      rfl
    started :=
      fun a signal rt hreport hsignal => (leaves_of_report hstack hreport).isStarted hsignal
    holds := hbound.holds }

end Moment

/-- Binding goes by the header and by what was passed, in whichever order the named values are gone
through. Over the life of a context every activation binds its arguments once, in the first step
that it takes. -/
theorem arguments_are_bound_once :
    (∀ (a : Arguments) (sig : Signature), ∃ bound, a.LaidOut sig bound ∧
      (∀ other, a.LaidOut sig other → other = bound) ∧
      a.BindsTo sig bound (a.bind sig) ∧
      ∀ order : List (String × Value), order.Perm a.named.toList →
        a.BindsTo sig bound (a.bindBy sig order)) ∧
    ∀ (past : List Moment) (m : Moment) (top : Activation) (callers : List Activation),
      Course past m.context → m.context.stack = top :: callers → m.Binds top callers := by
  refine ⟨fun a sig => ⟨a.layout sig, Arguments.laidOut_layout, fun other hother => ?_,
    a.bind_bindsTo sig, ?_⟩, ?_⟩
  · exact hother.unique Arguments.laidOut_layout
  · exact fun order horder => Arguments.bindBy_bindsTo horder
  · exact fun past m top callers hcourse hstack => Moment.binds hcourse hstack

/-- The second parameter gets the named value, and the script has a slot of its own behind them. -/
theorem named_argument_is_bound :
    let script : Proc := ⟨⟨"/proc/f", ["x", "y"], [⟨[.num]⟩]⟩, .script #[.ret] 1, none, none⟩
    let passed : Invocation := { arguments := ⟨[.int 7], (∅ : Names Value).insert "y" (.text "b")⟩ }
    let opened := ({ procs := #[script] } : Runtime).opened ⟨1, "/proc/f"⟩ passed
    ∃ top, opened.1.stack = [top] ∧ (Moment.mk opened.1 5 opened.2).Binds top [] ∧
      (Moment.mk opened.1 5 opened.2).report = .ok (top.withFrame (.script {
        code :=
          #[.ret], extra :=
            1, locals := some #[.int 7, .text "b", .null] }), .proceed) opened.2 := by
  intro script passed opened
  let m := Moment.mk opened.1 5 opened.2
  let top := (({ procs := #[script] } : Runtime).newContext.2.activate ⟨1, "/proc/f"⟩ 1 passed).1
  have hbinds : m.Binds top [] :=
    arguments_are_bound_once.2 [] m top [] (.opened _ _ _ (by decide)) rfl
  refine ⟨top, rfl, hbinds, ?_⟩
  have hfirst := hbinds.first ⟨script.body, rfl⟩ (by rintro ⟨f, hf, _⟩; cases hf)
  rw [show top.bind = .ok [.int 7, .text "b"] from rfl] at hfirst
  exact hfirst

end ProcEngine
