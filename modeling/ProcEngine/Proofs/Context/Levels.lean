import ProcEngine.Proofs.Arguments
import ProcEngine.Proofs.Context.Course
import ProcEngine.Proofs.Script.Heights
/-!
# Scripts on their level

In the course of a context every activation of a script that has an account of its operands stays on
its level: the innermost has all the operands that the account says, and each of the others lacks
the one that the activation above it is going to return. So the instruction that is executed next
never finds too few.
-/

namespace ProcEngine

/-- How many operands an activation is owed when it has reported this. -/
def Signal.owed : Signal → Nat
  | .called _ => 1
  | _ => 0

/-- The fault is what the object table has answered something with. -/
def Runtime.Denies (rt : Runtime) (fuel : Nat) (why : Fault) (rt' : Runtime) : Prop :=
  ∃ r, Runtime.onStore (Store.serve fuel r) rt = .fault why rt'

theorem Runtime.Denies.innocent {rt rt' : Runtime} {fuel : Nat} {why : Fault}
    (h : rt.Denies fuel why rt') (hblameless : rt.objects.Blameless) : why.isMalformed = false := by
  obtain ⟨r, hrun⟩ := h
  simp only [Runtime.onStore] at hrun
  split at hrun
  · cases hrun
  · rename_i hserve
    cases hrun
    exact Innocent.serve fuel r _ _ _ hblameless hserve
  · cases hrun
  · cases hrun

theorem Runtime.ask_fault {α : Type} {f : Runtime → Except Fault α} {rt rt' : Runtime} {e : Fault}
    (h : Runtime.ask f rt = .fault e rt') : f rt = .error e := by
  simp only [Runtime.ask] at h
  split at h <;> cases h
  assumption

theorem Runtime.global_error {rt : Runtime} {name : String} {e : Fault}
    (h : rt.global name = .error e) :
    e.isMalformed = false := by
  simp only [global] at h
  split at h <;> cases h
  rfl

theorem ObjectTable.proc_error {t : ObjectTable} {o : ObjectRef} {name : String} {e : Fault}
    (h : t.proc o name = .error e) : e.isMalformed = false := by
  simp only [proc, definition, get, bind, Except.bind, pure, Except.pure] at h
  cases hget : t.get? o with
  | none =>
    simp only [hget] at h
    cases h
    rfl
  | some object =>
    simp only [hget] at h
    split at h <;> cases h
    rfl

namespace Activation

variable {a b top : Activation} {f : ScriptFrame} {d : Demand} {signal : Signal} {fuel : Nat}
  {rt rt' : Runtime} {e : Fault}

theorem call_ne_fault {p : ProcRef} {i : Invocation} : a.call p i rt ≠ .fault e rt' := by
  intro h
  cases h

/-- What is done for a script outside of its frame does not fail for malformed code, but for what
the object table answers. -/
theorem meet_fault (h : a.meet fuel d rt = .fault e rt') : e.isMalformed = false ∨
    rt.Denies fuel e rt' := by
  cases d with
  | proceed | result v | sleep ticks | finish v => cases h
  | read o name | write o name v | delete o =>
    obtain h | ⟨_, _, _, h⟩ := Act.fault_of_bind h
    · exact Or.inr ⟨_, h⟩
    · cases h
  | call name args =>
    obtain h | ⟨_, _, _, h⟩ := Act.fault_of_bind h
    · exact Or.inl (Runtime.global_error (Runtime.ask_fault h))
    · exact absurd h call_ne_fault
  | callMethod o name args =>
    obtain h | ⟨_, _, _, h⟩ := Act.fault_of_bind h
    · exact Or.inl (ObjectTable.proc_error (Runtime.ask_fault h))
    · exact absurd h call_ne_fault
  | callSuper args =>
    simp only [meet, Act.bind_apply, Act.get_apply] at h
    cases hover : (rt.proc a.proc).overridden with
    | some p =>
      rw [hover] at h
      exact absurd h call_ne_fault
    | none =>
      rw [hover] at h
      cases h
      exact Or.inl rfl
  | construct path args =>
    obtain h | ⟨_, _, _, h⟩ := Act.fault_of_bind h
    · exact Or.inr ⟨_, h⟩
    · exact absurd h call_ne_fault

/-- What an instruction has asked for is there when the script goes on, or is owed to it. -/
theorem meet_script (hframe : a.frame = .script f) (h : a.meet fuel d rt = .ok (b, signal) rt')
    (hsignal : signal ≠ .returned) :
    b.signature = a.signature ∧ ∃ operands, b.frame = .script { f with operands } ∧
      operands.length + signal.owed = f.operands.length + d.owed := by
  have hsame : a.signature = a.signature ∧ ∃ operands, a.frame = .script { f with operands } ∧
      operands.length = f.operands.length := ⟨rfl, f.operands, hframe, rfl⟩
  cases d with
  | proceed | result v | sleep ticks =>
    cases h
    exact hsame
  | finish v =>
    cases h
    exact absurd rfl hsignal
  | read o name =>
    simp only [meet, Act.bind_apply] at h
    split at h <;> cases h
    rename_i v _
    simp only [receive, hframe]
    exact ⟨trivial, v :: f.operands, rfl, rfl⟩
  | write o name v | delete o =>
    simp only [meet, Act.bind_apply] at h
    split at h <;> cases h
    exact hsame
  | call name args | callMethod o name args | construct path args =>
    simp only [meet, Act.bind_apply] at h
    split at h
    · obtain ⟨rfl, callee, rfl, _⟩ := call_ok h
      exact ⟨rfl, f.operands, hframe, rfl⟩
    all_goals cases h
  | callSuper args =>
    simp only [meet, Act.bind_apply, Act.get_apply] at h
    cases hover : (rt.proc a.proc).overridden with
    | some p =>
      rw [hover] at h
      obtain ⟨rfl, callee, rfl, _⟩ := call_ok h
      exact ⟨rfl, f.operands, hframe, rfl⟩
    | none =>
      rw [hover] at h
      cases h

/-- What may become of a script on its level: a step leaves it what it is, and on its level, or else
it does not fail for malformed code by itself. -/
theorem step_script (hframe : top.frame = .script f) (fuel : Nat) (drive : Drive) (rt : Runtime) :
    match top.fetch.2.step fuel drive top.fetch.1 rt with
    | .ok (b, signal) _ => signal ≠ .returned →
      b.signature = top.signature ∧ ∃ f', b.frame = .script f' ∧ f'.code = f.code ∧
        f'.extra = f.extra ∧
        ∀ height limit, Heights f.code limit height →
          limit ≤ top.signature.params.length + f.extra.toNat →
          f.Level height limit 0 → f'.Level height limit signal.owed
    | .fault e rt' => ∀ height limit, Heights f.code limit height → f.Level height limit 0 →
      e.isMalformed = false ∨ rt.Denies fuel e rt'
    | .breach .. | .exhausted => True := by
  rw [Evaluator.step_fetch_script hframe]
  generalize hfetched : ({ f with position := f.position + 1 } : ScriptFrame) = fetched
  cases hlocals : f.locals with
  | none =>
    simp only [Act.bind_apply, Act.lift_apply]
    cases hbind : top.bind with
    | error e => exact fun _ _ _ _ => Or.inl (Arguments.bind_error hbind)
    -- A script that has no room for its slots does not fail, it breaks off.
    | ok values =>
      simp only [← Act.bind_apply, Act.need_bind]
      by_cases hroom : f.HasRoom values
      · rw [if_pos hroom]
        refine fun _ =>
          ⟨rfl, f.start values, rfl, rfl, rfl, fun height limit hheights hlimit hlevel =>
            hlevel.bound ?_⟩
        have hparams : top.signature.params.length ≤ values.length :=
          (Arguments.length_of_bind hbind).symm ▸ Nat.le_max_left _ _
        exact Nat.le_trans hlimit (Nat.add_le_add_right hparams _)
      · rw [if_neg hroom]
        trivial
  | some slots =>
    dsimp only
    cases hcode : f.code[f.position]? with
    | none => exact fun hsignal => absurd rfl hsignal
    | some i =>
      simp only [Act.bind_apply, Act.lift_apply]
      have hexecutes (height limit) (hheights : Heights f.code limit height)
          (hlevel : f.Level height limit 0) :=
        hlevel.exec hheights (by rw [hlocals]; rfl) hcode top.src top.usr
      rw [hfetched] at hexecutes
      cases hexec : fetched.exec top.src top.usr i with
      | error why =>
        rw [hexec] at hexecutes
        exact fun height limit hheights hlevel => Or.inl (hexecutes height limit hheights hlevel)
      | ok q =>
        obtain ⟨d, f₁⟩ := q
        rw [hexec] at hexecutes
        dsimp only
        cases hmeet : (top.withFrame (.script f₁)).meet fuel d rt with
        | ok r rt' =>
          intro hsignal
          obtain ⟨hsignature, operands, hframe', hlength⟩ := meet_script rfl hmeet hsignal
          subst hfetched
          obtain ⟨hsame, hextra⟩ := ScriptFrame.exec_keeps hexec
          refine ⟨hsignature, _, hframe', hsame, hextra, fun height limit hheights _ hlevel => ?_⟩
          obtain ⟨v, rfl⟩ | hleft := hexecutes height limit hheights hlevel
          · cases hmeet
            exact absurd rfl hsignal
          · exact hleft.regrouped hlength
        | fault e rt' => exact fun _ _ _ _ => meet_fault hmeet
        | breach b rt' => trivial
        | exhausted => trivial

/-- If the activation executes a script that has an account of its operands, it is on its level. -/
def OnLevel (owed : Nat) (a : Activation) : Prop :=
  ∀ f height limit, a.frame = .script f → Heights f.code limit height →
    limit ≤ a.signature.params.length + f.extra.toNat → f.Level height limit owed

theorem IsFresh.onLevel (hfresh : a.IsFresh) : a.OnLevel 0 := by
  intro f height limit hframe hheights _
  obtain ⟨body, hbody⟩ := hfresh
  cases body with
  | script code locals =>
    cases hframe.symm.trans hbody
    exact .start hheights rfl rfl
  | handler run => cases hframe.symm.trans hbody
  | routine passThrough start => cases hframe.symm.trans hbody

theorem OnLevel.receive (h : a.OnLevel 1) (v : Value) : (a.receive v).OnLevel 0 := by
  intro f height limit hframe hheights hlimit
  cases hcaller : a.frame with
  | script f' =>
    simp only [Activation.receive, hcaller] at hframe hlimit
    cases hframe
    exact (h f' height limit hcaller hheights hlimit).receive v
  | handler run =>
    simp only [Activation.receive, hcaller] at hframe
    cases hframe
  | routine f' =>
    simp only [Activation.receive, hcaller] at hframe
    cases hframe

/-- Whoever goes on as a script has been one before. -/
theorem Leaves.script {instr : Option Instr} {f' : ScriptFrame}
    (h : top.fetch.2.Leaves instr b signal)
    (hsignal : signal ≠ .returned) (hframe : b.frame = .script f') :
    ∃ f, top.frame = .script f := by
  have hfetched : ∃ f, top.fetch.2.frame = .script f := by
    cases h with
    | works hscript _ _ _ | callsScript hscript _ _ _ _ _ | sleepsScript hscript _ =>
      exact ⟨_, hscript⟩
    | callsRoutine => cases hframe
    | defersRoutine => cases hframe
    | ends => exact absurd rfl hsignal
  obtain ⟨f, hfetched⟩ := hfetched
  cases htop : top.frame with
  | script f => exact ⟨f, rfl⟩
  | handler run =>
    simp only [fetch, htop] at hfetched
    cases hfetched
  | routine f' =>
    simp only [fetch, htop] at hfetched
    cases hfetched

/-- A step that does not end an activation leaves it on its level. -/
theorem OnLevel.step (h : top.OnLevel 0) {drive : Drive}
    (hstep : top.fetch.2.step fuel drive top.fetch.1 rt = .ok (b, signal) rt')
    (hsignal : signal ≠ .returned) :
    b.OnLevel signal.owed := by
  intro f' height limit hframe' hheights hlimit
  obtain ⟨f, hframe⟩ := (step_ok hstep).script hsignal hframe'
  have hsteps := step_script hframe fuel drive rt
  rw [hstep] at hsteps
  obtain ⟨hsignature, f₁, hframe₁, hcode, hextra, hlevel⟩ := hsteps hsignal
  cases hframe₁.symm.trans hframe'
  rw [hsignature, hextra] at hlimit
  rw [hcode] at hheights
  exact hlevel height limit hheights hlimit (h f height limit hframe hheights hlimit)

end Activation

/-- The innermost activation is on its level, and the others are but for what is going to be
returned to them. -/
structure Context.Levels (c : Context) : Prop where
  top : ∀ top callers, c.stack = top :: callers → top.OnLevel 0
  callers : ∀ a ∈ c.stack.tail, a.OnLevel 1

namespace Context.Levels

variable {past : List Moment} {m : Moment}

theorem opened (rt : Runtime) (p : ProcRef) (i : Invocation) : (rt.opened p i).1.Levels where
  top top callers hstack := by
    cases hstack
    exact Activation.IsFresh.onLevel ⟨_, rfl⟩
  callers a ha := by cases ha

theorem of_nil {c : Context} (hstack : c.stack = []) : c.Levels where
  top top callers h := by
    rw [hstack] at h
    cases h
  callers := by simp [hstack]

theorem of_cons {c : Context} {a : Activation} {callers : List Activation}
    (hstack : c.stack = a :: callers)
    (ha : a.OnLevel 0) (hcallers : ∀ b ∈ callers, b.OnLevel 1) : c.Levels where
  top top callers' h := by
    rw [hstack] at h
    cases h
    exact ha
  callers := by
    rw [hstack]
    exact hcallers

theorem step (h : m.context.Levels) (hcourse : Course past m.context)
    (hunfinished : ¬ m.context.isFinished)
    {progress : Context.Progress} {rt : Runtime} (hstep : m.outcome = .ok progress rt) :
    progress.context.Levels := by
  obtain ⟨top, callers, hstack, hmoves⟩ := hcourse.coherent.moves hunfinished hstep
  have htop := h.top top callers hstack
  have hcallers := h.callers
  rw [hstack, List.tail_cons] at hcallers
  have hleft {b : Activation} {signal : Signal} {rt : Runtime}
      (hreport : m.report = .ok (b, signal) rt)
      (hsignal : signal ≠ .returned) : b.OnLevel signal.owed := by
    rw [Moment.report_eq hstack] at hreport
    exact htop.step hreport hsignal
  cases hmoves with
  | works hreport => exact of_cons rfl (hleft hreport (by simp)) hcallers
  | ends hreport hnone => exact of_nil rfl
  | @returns a caller rest rt hreport hcallers' =>
    subst hcallers'
    have hcaller := hcallers caller List.mem_cons_self
    exact of_cons rfl (hcaller.receive a.result) fun b hb => hcallers b (List.mem_cons_of_mem _ hb)
  | defers hreport => exact of_cons rfl (hleft hreport (by simp)) hcallers
  | @calls a d rt hreport hdepth =>
    have hfresh : d.IsFresh := by
      cases Moment.leaves_of_report hstack hreport with
      | callsScript _ _ _ _ _ hfresh => exact hfresh
      | callsRoutine _ hfresh => exact hfresh
    refine of_cons rfl hfresh.onLevel fun b hb => ?_
    obtain rfl | hb := List.mem_cons.mp hb
    · exact hleft hreport (by simp)
    · exact hcallers b hb
  | faults hfaults => exact of_nil rfl

end Context.Levels

theorem Course.levels {past : List Moment} {c : Context} (h : Course past c) : c.Levels := by
  induction h with
  | opened rt p i _ => exact .opened rt p i
  | step hcourse hunfinished hstep ih => exact ih.step hcourse hunfinished hstep

end ProcEngine
