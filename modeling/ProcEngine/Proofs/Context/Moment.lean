import ProcEngine.Proofs.Evaluation.Stack
import ProcEngine.Proofs.Preserves
/-!
# Moments

A moment is a point in the life of a context at which its innermost activation takes a step. What
the step does to that activation depends on the kind of proc (`Activation.Leaves`), and what it does
to the stack on what the activation reports (`Context.Moves`).
-/

namespace ProcEngine

/-! ### Calls in scripts -/

/-- How many operands a call takes, if the instruction is one. -/
def Instr.taken? : Instr → Option Nat
  | .call _ argc | .callSuper argc | .new _ argc => some argc.toNat
  | .callMethod _ argc => some (argc.toNat + 1)
  | _ => none

def Demand.isCall : Demand → Bool
  | .call .. | .callMethod .. | .callSuper _ | .construct .. => true
  | _ => false

namespace ScriptFrame

variable {f f' : ScriptFrame} {src usr : Option ObjectRef} {i : Instr} {d : Demand}

theorem popArguments_ok {argc : UInt64} {args : List Value}
    (h : f.popArguments argc = .ok (args, f')) :
    argc.toNat ≤ f.operands.length ∧ f' = { f with operands := f.operands.drop argc.toNat } := by
  simp only [popArguments] at h
  split at h
  · cases h
  · cases h
    exact ⟨by omega, rfl⟩

theorem pop_ok {v : Value} (h : f.pop = .ok (v, f')) :
    f.operands ≠ [] ∧ f' = { f with operands := f.operands.drop 1 } := by
  simp only [pop] at h
  split at h
  · rename_i v' rest heq
    cases h
    simp [heq]
  · cases h

/-- An instruction that calls takes its operands off and does nothing else to its frame. -/
theorem exec_call (h : f.exec src usr i = .ok (d, f')) (hd : d.isCall) :
    ∃ k, i.taken? = some k ∧ k ≤ f.operands.length ∧
      f' = { f with operands := f.operands.drop k } := by
  cases i with
  | call name argc | callSuper argc | new path argc =>
    obtain ⟨⟨args, f₁⟩, hpop, h⟩ := Except.of_bind_eq_ok h
    cases h
    exact ⟨_, rfl, popArguments_ok hpop⟩
  | callMethod name argc =>
    obtain ⟨⟨args, f₁⟩, hargs, h⟩ := Except.of_bind_eq_ok h
    obtain ⟨⟨target, f₂⟩, htarget, h⟩ := Except.of_bind_eq_ok h
    obtain ⟨o, ho, h⟩ := Except.of_bind_eq_ok h
    cases h
    obtain ⟨hlength, rfl⟩ := popArguments_ok hargs
    obtain ⟨hne, rfl⟩ := pop_ok htarget
    have hleft : 0 < (f.operands.drop argc.toNat).length := List.length_pos_iff.mpr hne
    rw [List.length_drop] at hleft
    refine ⟨_, rfl, by omega, ?_⟩
    simp only [List.drop_drop]
  | _ =>
    simp only [exec, binary, bind, Except.bind, pure, Except.pure] at h
    (repeat' split at h) <;> cases h <;> cases hd

theorem pop_locals {q : Value × ScriptFrame} (h : f.pop = .ok q) : q.2.locals = f.locals := by
  obtain ⟨v, f'⟩ := q
  obtain ⟨_, rfl⟩ := pop_ok h
  rfl

theorem popArguments_locals {argc : UInt64} {q : List Value × ScriptFrame}
    (h : f.popArguments argc = .ok q) :
    q.2.locals = f.locals := by
  obtain ⟨args, f'⟩ := q
  obtain ⟨_, rfl⟩ := popArguments_ok h
  rfl

/-- Once there are local slots there always are. -/
theorem exec_locals (h : f.exec src usr i = .ok (d, f')) (hlocals : f.locals.isSome) :
    f'.locals.isSome := by
  cases i <;> simp only [exec, binary, bind, Except.bind, pure, Except.pure] at h <;>
    (repeat' split at h) <;>
    cases h <;> grind [→ pop_locals, → popArguments_locals, push]

end ScriptFrame

/-! ### The step of an activation -/

namespace Activation

/-- What an activation is an activation of. It never changes. -/
def origin (a : Activation) : ContextId × ProcRef × Signature × Invocation :=
  (a.context, a.proc, a.signature, a.invocation)

@[simp] theorem receive_origin (a : Activation) (v : Value) : (a.receive v).origin = a.origin := by
  simp only [receive]
  split <;> rfl

@[simp] theorem fetch_origin (a : Activation) : a.fetch.2.origin = a.origin := by
  simp only [fetch]
  split
  · split <;> rfl
  · rfl

/-- A script with its arguments bound, and the instruction that it is about to execute. -/
theorem fetch_of_some {a : Activation} {f : ScriptFrame} (hframe : a.frame = .script f) {i : Instr}
    (hinstr : a.fetch.1 = some i) :
    f.locals.isSome ∧ f.code[f.position]? = some i ∧
      a.fetch.2 = a.withFrame (.script { f with position := f.position + 1 }) := by
  simp only [fetch, hframe] at hinstr ⊢
  split at hinstr <;> rename_i hlocals
  · rw [if_pos hlocals]
    simp only [ScriptFrame.fetch] at hinstr ⊢
    split at hinstr
    · rename_i hcode
      cases hinstr
      rw [hcode]
      exact ⟨hlocals, rfl, rfl⟩
    · cases hinstr
  · cases hinstr

/-- An activation that nothing has run of yet. -/
def IsFresh (a : Activation) : Prop := ∃ body : Body, a.frame = body.frame

theorem IsFresh.position {a : Activation} (h : a.IsFresh) {f : ScriptFrame}
    (hframe : a.frame = .script f) :
    f.position = 0 := by
  obtain ⟨body, hbody⟩ := h
  cases body with
  | script code locals =>
    cases hframe.symm.trans hbody
    rfl
  | handler run => cases hframe.symm.trans hbody
  | routine passThrough start => cases hframe.symm.trans hbody

theorem IsFresh.returned {a : Activation} (h : a.IsFresh) {f : RoutineFrame}
    (hframe : a.frame = .routine f) :
    f.returned = none := by
  obtain ⟨body, hbody⟩ := h
  cases body with
  | script code locals => cases hframe.symm.trans hbody
  | handler run => cases hframe.symm.trans hbody
  | routine passThrough start =>
    cases hframe.symm.trans hbody
    rfl

/-- What a step leaves of an activation, by what it reports. -/
inductive Leaves (a : Activation) (instr : Option Instr) : Activation → Signal → Prop
  /-- A script goes on, and its arguments are bound from then on. -/
  | works {f f' : ScriptFrame} {b : Activation} : a.frame = .script f → b.frame = .script f' →
    f'.locals.isSome →
    b.origin = a.origin → Leaves a instr b .proceed
  /-- A script calls by the instruction that it executes. -/
  | callsScript {f : ScriptFrame} {i : Instr} {k : Nat} {d : Activation} : a.frame = .script f →
    f.locals.isSome →
    instr = some i → i.taken? = some k → k ≤ f.operands.length → d.IsFresh →
    Leaves a instr (a.withFrame (.script { f with operands := f.operands.drop k })) (.called d)
  | sleepsScript {f f' : ScriptFrame} {n : UInt64} : a.frame = .script f → f'.locals.isSome →
    Leaves a instr (a.withFrame (.script f')) (.deferred (.ticks n))
  /-- A routine that calls has nothing returned to it yet. -/
  | callsRoutine {f : RoutineFrame} {rest : Value → Routine} {d : Activation} :
    a.frame = .routine f → d.IsFresh →
    Leaves a instr (a.withFrame (.routine { f with rest := some rest, returned := none }))
      (.called d)
  | defersRoutine {f : RoutineFrame} {rest : Value → Routine} {w : Wait} : a.frame = .routine f →
    Leaves a instr (a.withFrame (.routine { f with rest := some rest, returned := none }))
      (.deferred w)
  | ends {b : Activation} : b.origin = a.origin → Leaves a instr b .returned

theorem call_ok {a b : Activation} {p : ProcRef} {i : Invocation} {signal : Signal}
    {rt rt' : Runtime}
    (h : a.call p i rt = .ok (b, signal) rt') : b = a ∧ ∃ d, signal = .called d ∧ d.IsFresh := by
  cases h
  exact ⟨rfl, _, rfl, _, rfl⟩

/-- What a demand makes of an activation. -/
theorem meet_ok {fuel : Nat} {a b : Activation} {d : Demand} {signal : Signal} {rt rt' : Runtime}
    (h : a.meet fuel d rt = .ok (b, signal) rt') :
    (signal = .proceed ∧ (b = a ∨ ∃ v, b = a.withResult v ∨ b = a.receive v)) ∨
      (d.isCall ∧ b = a ∧ ∃ c, signal = .called c ∧ c.IsFresh) ∨
      (b = a ∧ ∃ n, signal = .deferred (.ticks n)) ∨ signal = .returned ∧ b.origin = a.origin := by
  cases d with
  | proceed =>
    cases h
    exact Or.inl ⟨rfl, Or.inl rfl⟩
  | result v =>
    cases h
    exact Or.inl ⟨rfl, Or.inr ⟨v, Or.inl rfl⟩⟩
  | read o name =>
    simp only [meet, Act.bind_apply] at h
    split at h <;> cases h
    exact Or.inl ⟨rfl, Or.inr ⟨_, Or.inr rfl⟩⟩
  | write o name v =>
    simp only [meet, Act.bind_apply] at h
    split at h <;> cases h
    exact Or.inl ⟨rfl, Or.inl rfl⟩
  | delete o =>
    simp only [meet, Act.bind_apply] at h
    split at h <;> cases h
    exact Or.inl ⟨rfl, Or.inl rfl⟩
  | call name args =>
    simp only [meet, Act.bind_apply] at h
    split at h <;> first | exact Or.inr (Or.inl ⟨rfl, call_ok h⟩) | cases h
  | callMethod o name args =>
    simp only [meet, Act.bind_apply] at h
    split at h <;> first | exact Or.inr (Or.inl ⟨rfl, call_ok h⟩) | cases h
  | callSuper args =>
    simp only [meet, Act.bind_apply, Act.get_apply] at h
    cases hover : (rt.proc a.proc).overridden with
    | some p =>
      rw [hover] at h
      exact Or.inr (Or.inl ⟨rfl, call_ok h⟩)
    | none =>
      rw [hover] at h
      cases h
  | construct path args =>
    simp only [meet, Act.bind_apply] at h
    split at h <;> first | exact Or.inr (Or.inl ⟨rfl, call_ok h⟩) | cases h
  | sleep ticks =>
    cases h
    exact Or.inr (Or.inr (Or.inl ⟨rfl, ticks, rfl⟩))
  | finish v =>
    cases h
    exact Or.inr (Or.inr (Or.inr ⟨rfl, rfl⟩))

theorem stepScript_ok {fuel : Nat} {a b : Activation} {f : ScriptFrame}
    (hframe : a.frame = .script f) {instr : Option Instr} {signal : Signal} {rt rt' : Runtime}
    (h : a.stepScript fuel f instr rt = .ok (b, signal) rt') : a.Leaves instr b signal := by
  simp only [stepScript] at h
  cases hlocals : f.locals with
  | none =>
    simp only [hlocals, Act.bind_apply, Act.lift_apply] at h
    cases hbind : a.bind with
    | error e => simp [hbind] at h
    | ok values =>
      simp only [hbind, ← Act.bind_apply] at h
      obtain ⟨_, h⟩ := Act.of_need h
      cases h
      exact .works hframe rfl rfl rfl
  | some slots =>
    rw [hlocals] at h
    cases instr with
    | none =>
      cases h
      exact .ends rfl
    | some i =>
      simp only [Act.bind_apply, Act.lift_apply] at h
      cases hexec : f.exec a.src a.usr i with
      | error e => simp [hexec] at h
      | ok q =>
        obtain ⟨d, f'⟩ := q
        rw [hexec] at h
        have hlocals' := ScriptFrame.exec_locals hexec (by rw [hlocals]; rfl)
        obtain ⟨rfl, rfl | ⟨v, rfl | rfl⟩⟩ | ⟨hd, rfl, c, rfl, hfresh⟩ | ⟨rfl, n, rfl⟩
          | ⟨rfl, horigin⟩ := meet_ok h
        · exact .works hframe rfl hlocals' rfl
        · exact .works hframe rfl hlocals' rfl
        · exact .works hframe rfl hlocals' (receive_origin _ v)
        · obtain ⟨k, hk, hle, rfl⟩ := ScriptFrame.exec_call hexec hd
          exact .callsScript hframe (by rw [hlocals]; rfl) rfl hk hle hfresh
        · exact .sleepsScript hframe hlocals'
        · exact .ends horigin

theorem stepRoutine_ok {serve : Serve} {a b : Activation} {f : RoutineFrame}
    (hframe : a.frame = .routine f) {instr : Option Instr} {signal : Signal} {rt rt' : Runtime}
    (h : a.stepRoutine serve f rt = .ok (b, signal) rt') : a.Leaves instr b signal := by
  simp only [stepRoutine, Act.bind_apply, Act.lift_apply] at h
  cases hr : a.resumption f with
  | error e => simp [hr] at h
  | ok r =>
    simp only [hr] at h
    cases hp : r.advance serve rt with
    | ok pause rt₁ =>
      rw [hp] at h
      cases pause with
      | finished v =>
        cases h
        exact .ends rfl
      | invoke p i rest =>
        obtain ⟨rfl, d, rfl, hfresh⟩ := call_ok h
        exact .callsRoutine hframe hfresh
      | sleep ticks rest =>
        cases h
        exact .defersRoutine hframe
      | wait rest =>
        cases h
        exact .defersRoutine hframe
    | fault e rt₁ => simp [hp] at h
    | breach b rt₁ => simp [hp] at h
    | exhausted => simp [hp] at h

theorem step_ok {fuel : Nat} {drive : Drive} {a b : Activation} {instr : Option Instr}
    {signal : Signal} {rt rt' : Runtime} (h : a.step fuel drive instr rt = .ok (b, signal) rt') :
    a.Leaves instr b signal := by
  cases hframe : a.frame with
  | script f =>
    simp only [step, hframe] at h
    exact stepScript_ok hframe h
  | handler run =>
    simp only [step, hframe, Act.bind_apply, Act.lift_apply] at h
    cases hbound : a.bound with
    | error e => simp [hbound] at h
    | ok i =>
      simp only [hbound] at h
      split at h <;> cases h
      exact .ends rfl
  | routine f =>
    simp only [step, hframe] at h
    exact stepRoutine_ok hframe h

theorem Leaves.origin {a b : Activation} {instr : Option Instr} {signal : Signal}
    (h : a.Leaves instr b signal) :
    b.origin = a.origin := by
  cases h with
  | works _ _ _ horigin | ends horigin => exact horigin
  | _ => rfl

end Activation

/-! ### The step of a context -/

/-- An unfinished context about to take a step, with the fuel that it may use and the runtime that
it finds. -/
structure Moment where
  context : Context
  fuel : Nat
  runtime : Runtime

namespace Moment

/-- What the innermost activation reports. -/
def report (m : Moment) : Outcome Runtime (Activation × Signal) :=
  match m.context.stack with
  | [] => .breach (.emptyContext m.context.id) m.runtime
  | top :: _ => top.fetch.2.step m.fuel (Context.run m.fuel) top.fetch.1 m.runtime

/-- What the context comes to. -/
def outcome (m : Moment) : Outcome Runtime Context.Progress :=
  m.context.step m.fuel (Context.run m.fuel) m.runtime

/-- The value with which the innermost activation returns, if it does. -/
def value? (m : Moment) : Option Value :=
  match m.report with
  | .ok (a, .returned) _ => some a.result
  | _ => none

/-- The innermost activation calls and is left as `a`, on top of `callers`. -/
structure IsCall (m : Moment) (a callee : Activation) (callers : List Activation) : Prop where
  stack : ∃ top, m.context.stack = top :: callers
  report : ∃ rt, m.report = .ok (a, .called callee) rt

/-- A step that ends the context with a fault, and the stack at that moment: an activation raises
it, or one calls although the context may not hold any more. -/
inductive Faults (m : Moment) (top : Activation) (callers : List Activation) :
    (shown : List Activation) → Fault → Runtime → Prop
  | raised {why : Fault} {rt : Runtime} : m.report = .fault why rt →
    Faults m top callers (top.fetch.2 :: callers) why rt
  | refused {a d : Activation} {rt : Runtime} : m.report = .ok (a, .called d) rt →
    m.context.maxDepth ≤ callers.length + 1 →
    Faults m top callers (a :: callers) (.stackOverflow m.context.maxDepth) rt

/-- Everything that a step can make of a context with `top` on top of `callers`. -/
inductive Moves (m : Moment) (top : Activation) (callers : List Activation) : Context.Progress →
    Runtime → Prop
  | works {a : Activation} {rt : Runtime} : m.report = .ok (a, .proceed) rt →
    Moves m top callers (.running (m.context.on (a :: callers))) rt
  | ends {a : Activation} {rt : Runtime} : m.report = .ok (a, .returned) rt → callers = [] →
    Moves m top callers (.stopped a.result { m.context with stack := [], state := .returned }) rt
  | returns {a caller : Activation} {rest : List Activation} {rt : Runtime} :
    m.report = .ok (a, .returned) rt →
    callers = caller :: rest →
    Moves m top callers (.running (m.context.on (caller.receive a.result :: rest))) rt
  | defers {a : Activation} {w : Wait} {rt : Runtime} : m.report = .ok (a, .deferred w) rt →
    Moves m top callers
      (.stopped a.result { m.context with stack := a :: callers, state := .deferred w }) rt
  | calls {a d : Activation} {rt : Runtime} : m.report = .ok (a, .called d) rt →
    callers.length + 1 < m.context.maxDepth →
    Moves m top callers (.running (m.context.on (d :: a :: callers))) rt
  | faults {shown : List Activation} {why : Fault} {rt : Runtime} :
    m.Faults top callers shown why rt →
    Moves m top callers (.stopped .null { m.context with stack := [], state := .faulted why })
      (rt.tell (.fault m.context.id why (shown.map Activation.traceLine)))

variable {m : Moment} {top : Activation} {callers : List Activation}

theorem report_eq (hstack : m.context.stack = top :: callers) :
    m.report = top.fetch.2.step m.fuel (Context.run m.fuel) top.fetch.1 m.runtime := by
  rw [report, hstack]

theorem leaves_of_report (hstack : m.context.stack = top :: callers) {a : Activation}
    {signal : Signal} {rt : Runtime}
    (h : m.report = .ok (a, signal) rt) : top.fetch.2.Leaves top.fetch.1 a signal := by
  rw [report_eq hstack] at h
  exact Activation.step_ok h

theorem own_of_report (hstack : m.context.stack = top :: callers)
    (hown : top.context = m.context.id)
    {a : Activation} {signal : Signal} {rt : Runtime} (h : m.report = .ok (a, signal) rt) :
    a.context = m.context.id ∧ ∀ d, signal = .called d → d.context = m.context.id := by
  rw [report_eq hstack] at h
  have hkeeps :=
    Activation.step_keepsTo m.fuel (Context.run m.fuel) top.fetch.2 top.fetch.1 _ _ _ _ h
  rwa [Activation.fetch_context, hown] at hkeeps

theorem moves_of_outcome (hstack : m.context.stack = top :: callers)
    (hown : top.context = m.context.id)
    {progress : Context.Progress} {rt : Runtime} (h : m.outcome = .ok progress rt) :
    m.Moves top callers progress rt := by
  have hreport := report_eq hstack
  simp only [outcome, Context.step, hstack] at h
  rw [← hreport] at h
  cases hr : m.report with
  | ok q rt₁ =>
    obtain ⟨a, signal⟩ := q
    rw [hr] at h
    cases signal with
    | proceed =>
      cases h
      exact .works hr
    | returned =>
      cases callers with
      | nil =>
        cases h
        exact .ends hr rfl
      | cons caller rest =>
        cases h
        exact .returns hr rfl
    | deferred w =>
      cases h
      exact .defers hr
    | called d =>
      have hd := (own_of_report hstack hown hr).2 d rfl
      simp only [Context.proceed, Context.push, hd, ne_eq, not_true_eq_false, if_false,
        List.length_cons] at h
      by_cases hdepth : m.context.maxDepth ≤ callers.length + 1
      · rw [if_pos hdepth] at h
        cases h
        exact .faults (.refused hr hdepth)
      · rw [if_neg hdepth] at h
        cases h
        exact .calls hr (by omega)
  | fault why rt₁ =>
    rw [hr] at h
    cases h
    exact .faults (.raised hr)
  | breach b rt₁ =>
    rw [hr] at h
    cases h
  | exhausted =>
    rw [hr] at h
    cases h

/-- A script that calls executes the instruction that calls, and keeps the operands that it does not
take. -/
theorem IsCall.script {a callee : Activation} (hcall : m.IsCall a callee callers)
    (hstack : m.context.stack = top :: callers) {f : ScriptFrame} (hframe : top.frame = .script f) :
    f.locals.isSome ∧ ∃ i k, f.code[f.position]? = some i ∧ i.taken? = some k ∧
      k ≤ f.operands.length ∧
      a =
        top.withFrame
          (.script { f with position := f.position + 1, operands := f.operands.drop k }) := by
  obtain ⟨rt, hreport⟩ := hcall.report
  have hleaves := leaves_of_report hstack hreport
  cases hleaves with
  | @callsScript f' i k d hframe' _ hinstr htaken hle _ =>
    obtain ⟨hlocals, hcode, hfetch⟩ := Activation.fetch_of_some hframe hinstr
    rw [hfetch] at hframe' ⊢
    cases hframe'
    exact ⟨hlocals, i, k, hcode, htaken, hle, rfl⟩
  | @callsRoutine f' _ _ hframe' _ =>
    simp only [Activation.fetch, hframe] at hframe'
    split at hframe'
    · cases hframe'
    · cases hframe.symm.trans hframe'

end Moment

end ProcEngine
