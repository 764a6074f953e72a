import ProcEngine.Builtins
import ProcEngine.Proofs.Context.Upkeep
import ProcEngine.Proofs.Script.Heights
/-!
# Contexts that share nothing

Code is secluded if it works on nothing but its own frame, what it was called with and the procs
that it calls by name. A context that runs secluded code sees of a runtime only its global names and
what stands behind them, so it comes to the same whatever others do to the rest
(`Context.resume_blind`).
-/

namespace ProcEngine

variable {σ α β : Type}

/-! ### What stays the same -/

/-- No global name has been defined meanwhile, and the procs that there were still run the same
code. -/
structure Runtime.Steady (rt rt' : Runtime) : Prop where
  globals : rt'.globals = rt.globals
  size : rt.procs.size ≤ rt'.procs.size
  code : ∀ q : ProcRef, q.id ≤ rt.procs.size →
    (rt'.proc q).signature = (rt.proc q).signature ∧ (rt'.proc q).body = (rt.proc q).body

namespace Runtime.Steady

variable {rt rt' rt'' : Runtime}

theorem of_eq (hglobals : rt'.globals = rt.globals) (hprocs : rt'.procs = rt.procs) :
    rt.Steady rt' where
  globals := hglobals
  size := Nat.le_of_eq (by rw [hprocs])
  code q _ := by
    have hproc : rt'.proc q = rt.proc q := by
      rw [proc, proc, hprocs]
    rw [hproc]
    exact ⟨rfl, rfl⟩

theorem refl (rt : Runtime) : rt.Steady rt := of_eq rfl rfl

theorem of_idle (h : rt = rt') : rt.Steady rt' := h ▸ refl rt

theorem trans (h : rt.Steady rt') (h' : rt'.Steady rt'') : rt.Steady rt'' where
  globals := h'.globals.trans h.globals
  size := Nat.le_trans h.size h'.size
  code q hq := by
    obtain ⟨hsignature, hbody⟩ := h.code q hq
    obtain ⟨hsignature', hbody'⟩ := h'.code q (Nat.le_trans hq h.size)
    exact ⟨hsignature'.trans hsignature, hbody'.trans hbody⟩

instance : Std.Refl Steady := ⟨refl⟩

instance : Trans Steady Steady Steady := ⟨trans⟩

/-- Whatever contexts and those who drive them do, the code stays. -/
theorem upkept : Upkept Steady where
  carried := {
    store := fun _ _ _ => of_eq rfl rfl
    activate := fun rt p id i => by
      simp only [activate]
      split <;> exact of_eq rfl rfl }
  recorded _ _ _ := of_eq rfl rfl
  created _ := of_eq rfl rfl
  refused _ _ _ _ h := h.trans (of_eq rfl rfl)
  faulted _ _ _ _ h := h.trans (of_eq rfl rfl)
  detached _ _ _ := of_eq rfl rfl
  vacated _ := of_eq rfl rfl

end Runtime.Steady

/-! ### What cannot see the rest -/

/-- What can be told of an outcome without the state that it leaves. -/
def Outcome.forget : Outcome σ α → Outcome Unit α
  | ok a _ => .ok a ()
  | fault e _ => .fault e ()
  | breach b _ => .breach b ()
  | exhausted => .exhausted

/-- Goes on after a value, and after a fault too. -/
def Act.either (x : Act σ α) (f : α → Act σ β) (g : Fault → Act σ β) : Act σ β := fun s =>
  match x s with
  | .ok a s => f a s
  | .fault e s => g e s
  | .breach b s => .breach b s
  | .exhausted => .exhausted

/-- Comes to the same in all runtimes with the code of `rt₀`, and gives only what satisfies `Q`. -/
structure Act.Blind (rt₀ : Runtime) (Q : α → Prop) (x : Act Runtime α) : Prop where
  same : ∀ {rt rt' : Runtime}, rt₀.Steady rt → rt₀.Steady rt' → (x rt).forget = (x rt').forget
  gives : ∀ {rt rt' : Runtime} {a : α}, rt₀.Steady rt → x rt = .ok a rt' → rt₀.Steady rt' ∧ Q a

namespace Act.Blind

variable {rt₀ : Runtime} {Q : α → Prop}

theorem pure {a : α} (ha : Q a) : Act.Blind rt₀ Q (Pure.pure a : Act Runtime α) where
  same _ _ := rfl
  gives h heq := by
    cases heq
    exact ⟨h, ha⟩

theorem lift {x : Except Fault α} (hx : ∀ a, x = .ok a → Q a) :
    Act.Blind rt₀ Q (liftM x : Act Runtime α) where
  same _ _ := by cases x <;> rfl
  gives h heq := by
    cases x <;> cases heq
    exact ⟨h, hx _ rfl⟩

theorem need {p : Prop} [Decidable p] {b : Breach} : Act.Blind rt₀ (fun _ => True)
    (Act.need p b) where
  same _ _ := by
    simp only [Act.need]
    split <;> rfl
  gives h heq := by
    simp only [Act.need] at heq
    split at heq <;> cases heq
    exact ⟨h, trivial⟩

theorem ask {f : Runtime → Except Fault α} (hf : ∀ rt, rt₀.Steady rt → f rt = f rt₀)
    (hq : ∀ a, f rt₀ = .ok a → Q a) :
    Act.Blind rt₀ Q (Runtime.ask f) where
  same {rt rt'} h h' := by
    simp only [Runtime.ask, hf rt h, hf rt' h']
    cases f rt₀ <;> rfl
  gives {rt rt' a} h heq := by
    simp only [Runtime.ask, hf rt h] at heq
    cases hrt : f rt₀ <;> rw [hrt] at heq <;> cases heq
    exact ⟨h, hq _ hrt⟩

theorem bind {Q' : β → Prop} {x : Act Runtime α} {f : α → Act Runtime β} (hx : Act.Blind rt₀ Q x)
    (hf : ∀ a, Q a → Act.Blind rt₀ Q' (f a)) : Act.Blind rt₀ Q' (x >>= f) where
  same {rt rt'} h h' := by
    have hsame := hx.same h h'
    rw [Act.bind_apply, Act.bind_apply]
    cases hrun : x rt <;> cases hrun' : x rt' <;> rw [hrun, hrun'] at hsame <;>
      cases hsame <;> try rfl
    obtain ⟨hleft, ha⟩ := hx.gives h hrun
    exact (hf _ ha).same hleft (hx.gives h' hrun').1
  gives {rt rt' b} h heq := by
    rw [Act.bind_apply] at heq
    cases hrun : x rt with
    | ok a rt₁ =>
      rw [hrun] at heq
      obtain ⟨hleft, ha⟩ := hx.gives h hrun
      exact (hf a ha).gives hleft heq
    | fault e rt₁ =>
      rw [hrun] at heq
      cases heq
    | breach b rt₁ =>
      rw [hrun] at heq
      cases heq
    | exhausted =>
      rw [hrun] at heq
      cases heq

theorem either {Q' : β → Prop} {x : Act Runtime α} {f : α → Act Runtime β}
    {g : Fault → Act Runtime β} (hx : Act.Blind rt₀ Q x) (hkeeps : Act.Preserves Runtime.Steady x)
    (hf : ∀ a, Q a → Act.Blind rt₀ Q' (f a))
    (hg : ∀ e, Act.Blind rt₀ Q' (g e)) : Act.Blind rt₀ Q' (x.either f g) where
  same {rt rt'} h h' := by
    have hsame := hx.same h h'
    have hleft := hkeeps rt
    have hleft' := hkeeps rt'
    simp only [Act.either]
    cases hrun : x rt <;> cases hrun' : x rt' <;> rw [hrun, hrun'] at hsame <;>
      cases hsame <;> try rfl
    · obtain ⟨hleft, ha⟩ := hx.gives h hrun
      exact (hf _ ha).same hleft (hx.gives h' hrun').1
    · rw [hrun] at hleft
      rw [hrun'] at hleft'
      exact (hg _).same (h.trans (hleft _ rfl)) (h'.trans (hleft' _ rfl))
  gives {rt rt' b} h heq := by
    have hleft := hkeeps rt
    simp only [Act.either] at heq
    cases hrun : x rt with
    | ok a rt₁ =>
      rw [hrun] at heq
      obtain ⟨hleft, ha⟩ := hx.gives h hrun
      exact (hf a ha).gives hleft heq
    | fault e rt₁ =>
      rw [hrun] at heq hleft
      exact (hg e).gives (h.trans (hleft _ rfl)) heq
    | breach b rt₁ =>
      rw [hrun] at heq
      cases heq
    | exhausted =>
      rw [hrun] at heq
      cases heq

end Act.Blind

/-! ### Secluded code -/

/-- Instructions that work on the frame and on what the proc was called with, and calls of global
procs. -/
def Instr.isSecluded : Instr → Bool
  | .push _ | .getLocal _ | .setLocal _ | .src | .usr | .add | .sub | .mul | .eq | .lt | .not
    | .jump _ | .jumpIfFalse _
  | .pop | .setResult | .call .. | .sleep | .crash | .ret => true
  | .getVar _ | .setVar _ | .callMethod .. | .callSuper _ | .new .. | .del => false

/-- A routine that asks nothing of anybody, but may pause. -/
inductive Routine.Mute : Routine → Prop
  | done (v : Value) : Mute (.done v)
  | fail (e : Fault) : Mute (.fail e)
  | sleep {ticks : UInt64} {next : Except Fault Value → Routine} : (∀ v, Mute (next (.ok v))) →
    Mute (.ask (.sleep ticks) next)
  | wait {next : Except Fault Value → Routine} : (∀ v, Mute (next (.ok v))) → Mute (.ask .wait next)

theorem Builtins.sleep_mute (i : Invocation) : (Builtins.sleep i).Mute := by
  rw [Builtins.sleep]
  cases (i.arguments.get 0).asInt with
  | error e => exact .fail e
  | ok ticks => exact .sleep fun _ => .done _

def Body.IsSecluded : Body → Prop
  | .script code _ => ∀ i ∈ code, i.isSecluded
  | .handler _ => False
  | .routine _ start => ∀ i v, (start i v).Mute

namespace Runtime

/-- The procs that code can get to from `p` by the names that it calls. -/
inductive Reaches (rt : Runtime) (p : ProcRef) : ProcRef → Prop
  | self : Reaches rt p p
  | call {q r : ProcRef} {code : Array Instr} {locals : UInt64} {name : String} {argc : UInt64} :
    Reaches rt p q →
    (rt.proc q).body = .script code locals → .call name argc ∈ code → rt.globals[name]? = some r →
      Reaches rt p r

/-- Whatever code can be got to from `p` is secluded. -/
def Secluded (rt : Runtime) (p : ProcRef) : Prop :=
  ∀ q, rt.Reaches p q → q.id ≤ rt.procs.size ∧ (rt.proc q).body.IsSecluded

/-- The code is secluded, and so is whatever it calls. -/
def SecludedCode (rt : Runtime) (code : Array Instr) : Prop :=
  ∀ i ∈ code, i.isSecluded ∧ ∀ name argc r, i = .call name argc → rt.globals[name]? = some r →
    rt.Secluded r

variable {rt : Runtime} {p q r : ProcRef}

theorem Reaches.trans (h : rt.Reaches p q) (h' : rt.Reaches q r) : rt.Reaches p r := by
  induction h' with
  | self => exact h
  | call _ hbody hcall hname ih => exact .call ih hbody hcall hname

theorem Secluded.code (h : rt.Secluded p) {code : Array Instr} {locals : UInt64}
    (hbody : (rt.proc p).body = .script code locals) : rt.SecludedCode code := by
  intro i hi
  have hsecluded := (h p .self).2
  rw [hbody] at hsecluded
  refine ⟨hsecluded i hi, fun name argc r heq hr q hq => ?_⟩
  subst heq
  exact h q ((Reaches.call .self hbody hi hr).trans hq)

end Runtime

/-! ### Activations -/

/-- Executes secluded code, with the names of `rt`. -/
def Activation.Secluded (rt : Runtime) (a : Activation) : Prop :=
  match a.frame with
  | .script f => rt.SecludedCode f.code
  | .handler _ => False
  | .routine f => (∀ i v, (f.start i v).Mute) ∧ ∀ rest, f.rest = some rest → ∀ v, (rest v).Mute

variable {rt₀ rt rt' : Runtime} {p : ProcRef} {a : Activation}

theorem Runtime.Secluded.activate (h : rt₀.Secluded p) (hrt : rt₀.Steady rt) (id : ContextId)
    (i : Invocation) :
    (rt.activate p id i).1.Secluded rt₀ := by
  obtain ⟨hknown, hsecluded⟩ := h p .self
  obtain ⟨_, hbody⟩ := hrt.code p hknown
  show match (rt.proc p).body.frame with
    | .script f => rt₀.SecludedCode f.code
    | .handler _ => False
    | .routine f => (∀ i v, (f.start i v).Mute) ∧ ∀ rest, f.rest = some rest → ∀ v, (rest v).Mute
  rw [hbody]
  cases hcase : (rt₀.proc p).body with
  | script code locals => exact h.code hcase
  | handler run =>
    rw [hcase] at hsecluded
    exact hsecluded
  | routine passThrough start =>
    rw [hcase] at hsecluded
    exact ⟨hsecluded, fun rest hrest => by cases hrest⟩

/-- The same activation is created wherever the code is the same. -/
theorem Runtime.Secluded.activate_eq (h : rt₀.Secluded p) (hrt : rt₀.Steady rt) (id : ContextId)
    (i : Invocation) :
    (rt.activate p id i).1 = (rt₀.activate p id i).1 := by
  obtain ⟨hsignature, hbody⟩ := hrt.code p (h p .self).1
  simp only [Runtime.activate, hsignature, hbody]

/-- What a step of secluded code leaves: an activation of such code, and one of such code that it
calls. -/
def Activation.StaysSecluded (rt : Runtime) (q : Activation × Signal) : Prop :=
  q.1.Secluded rt ∧ ∀ d, q.2 = .called d → d.Secluded rt

/-- What a secluded instruction may ask for. -/
inductive Demand.IsSecluded (i : Instr) : Demand → Prop
  | proceed : IsSecluded i .proceed
  | result (v : Value) : IsSecluded i (.result v)
  | call {name : String} {argc : UInt64} (args : List Value) : i = .call name argc →
    IsSecluded i (.call name args)
  | sleep (ticks : UInt64) : IsSecluded i (.sleep ticks)
  | finish (v : Value) : IsSecluded i (.finish v)

theorem ScriptFrame.exec_secluded {f f' : ScriptFrame} {src usr : Option ObjectRef}
    {i : Instr} {d : Demand}
    (hi : i.isSecluded) (h : f.exec src usr i = .ok (d, f')) : d.IsSecluded i := by
  cases i with
  | getVar | setVar | callMethod | callSuper | new | del => cases hi
  | call name argc =>
    obtain ⟨⟨args, f₁⟩, _, h⟩ := Except.of_bind_eq_ok h
    cases h
    exact .call args rfl
  | _ =>
    simp only [exec, binary, bind, Except.bind, pure, Except.pure] at h
    (repeat' split at h) <;> cases h <;> constructor

namespace Activation

theorem enter_blind (h : rt₀.Secluded p) (id : ContextId) (i : Invocation) :
    Act.Blind rt₀ (Activation.Secluded rt₀) (Runtime.enter p id i) where
  same {rt rt'} hrt hrt' := by
    show Outcome.ok (rt.activate p id i).1 () = Outcome.ok (rt'.activate p id i).1 ()
    rw [h.activate_eq hrt, h.activate_eq hrt']
  gives {rt rt' a} hrt heq := by
    cases heq
    exact ⟨hrt.trans (Runtime.Steady.upkept.carried.activate rt p id i), h.activate hrt id i⟩

theorem call_blind (ha : a.Secluded rt₀) (h : rt₀.Secluded p) (i : Invocation) :
    Act.Blind rt₀ (StaysSecluded rt₀) (a.call p i) :=
  (enter_blind h a.context i).bind fun d hd => .pure ⟨ha, fun d' heq => by
    cases heq
    exact hd⟩

theorem secluded_script {f : ScriptFrame} (hframe : a.frame = .script f) :
    a.Secluded rt₀ ↔ rt₀.SecludedCode f.code := by
  rw [Secluded, hframe]

theorem Secluded.receive (h : a.Secluded rt₀) (v : Value) : (a.receive v).Secluded rt₀ := by
  cases hframe : a.frame with
  | script f =>
    simp only [Secluded, Activation.receive, hframe] at h ⊢
    exact h
  | handler run =>
    simp only [Secluded, hframe] at h
  | routine f =>
    simp only [Secluded, Activation.receive, hframe] at h ⊢
    exact h

/-- Nothing is called. -/
theorem StaysSecluded.of_ne {q : Activation × Signal} (h : q.1.Secluded rt₀)
    (hsignal : ∀ d, q.2 ≠ .called d) :
    StaysSecluded rt₀ q := ⟨h, fun d heq => absurd heq (hsignal d)⟩

theorem meet_blind {i : Instr} {d : Demand} (ha : a.Secluded rt₀) (hd : d.IsSecluded i)
    (hnames : ∀ name argc r, i = .call name argc → rt₀.globals[name]? = some r → rt₀.Secluded r)
    (fuel : Nat) :
    Act.Blind rt₀ (StaysSecluded rt₀) (a.meet fuel d) := by
  cases hd with
  | proceed => exact .pure (.of_ne ha (by simp))
  | result v => exact .pure (.of_ne ha (by simp))
  | @call name argc args heq =>
    refine Act.Blind.bind (Q := rt₀.Secluded) (.ask (fun rt hrt => ?_) fun r hr => ?_) fun r hr =>
      call_blind ha hr _
    · simp only [Runtime.global, hrt.globals]
    · cases hname : rt₀.globals[name]? with
      | none =>
        simp only [Runtime.global, hname] at hr
        cases hr
      | some r' =>
        simp only [Runtime.global, hname] at hr
        cases hr
        exact hnames name argc r heq hname
  | sleep ticks => exact .pure (.of_ne ha (by simp))
  | finish v => exact .pure (.of_ne ha (by simp))

end Activation

/-- What follows the pause is as mute as what came before it. -/
def Pause.Mute : Pause → Prop
  | .finished _ => True
  | .invoke .. => False
  | .sleep _ rest | .wait rest => ∀ v, (rest v).Mute

theorem Routine.advance_blind {r : Routine} (hr : r.Mute) (serve : Serve) :
    Act.Blind rt₀ Pause.Mute (r.advance serve) := by
  cases hr with
  | done v => exact .pure (a := Pause.finished v) trivial
  | fail e =>
    exact ⟨fun _ _ => rfl, fun _ heq => by cases heq⟩
  | sleep hrest => exact .pure (a := Pause.sleep _ _) hrest
  | wait hrest => exact .pure (a := Pause.wait _) hrest

namespace Activation

/-- A routine that has not been started is started. -/
theorem start_of_resumption {f : RoutineFrame} {r : Routine} (hrest : f.rest = none)
    (h : a.resumption f = .ok r) :
    ∃ i v, r = f.start i v := by
  simp only [resumption, hrest] at h
  split at h
  · cases h
    exact ⟨_, _, rfl⟩
  · cases hbound : a.bound with
    | error e =>
      rw [hbound] at h
      cases h
    | ok i =>
      rw [hbound] at h
      cases h
      exact ⟨_, _, rfl⟩

/-- Secluded code does the same in every runtime with the same code, and stays secluded. -/
theorem step_blind (h : a.Secluded rt₀) (fuel : Nat) (drive : Drive) :
    Act.Blind rt₀ (StaysSecluded rt₀) (a.fetch.2.step fuel drive a.fetch.1) := by
  cases hframe : a.frame with
  | script f =>
    have hcode := (secluded_script hframe).mp h
    have hleft {f' : ScriptFrame} (hsame : f'.code = f.code) :
        (a.withFrame (.script f')).Secluded rt₀ :=
      (secluded_script rfl).mpr (hsame ▸ hcode)
    rw [Evaluator.step_fetch_script hframe]
    cases f.locals with
    | none =>
      refine Act.Blind.bind (Q := fun _ => True) (.lift fun _ _ => trivial) fun values _ => ?_
      exact Act.Blind.need.bind fun _ _ => .pure (.of_ne (hleft rfl) (by simp))
    | some slots =>
      cases hi : f.code[f.position]? with
      | none => exact .pure (.of_ne h (by simp))
      | some i =>
        obtain ⟨hsecluded, hnames⟩ := hcode i (Array.mem_of_getElem? hi)
        refine Act.Blind.bind (Q := fun q => q.1.IsSecluded i ∧ q.2.code = f.code)
          (.lift fun q hexec => ?_)
          fun q ⟨hd, hsame⟩ => meet_blind (hleft hsame) hd hnames fuel
        exact ⟨ScriptFrame.exec_secluded hsecluded hexec, (ScriptFrame.exec_keeps hexec).1⟩
  | handler run =>
    rw [Secluded, hframe] at h
    exact h.elim
  | routine f =>
    rw [Secluded, hframe] at h
    obtain ⟨hstart, hrest⟩ := h
    -- A routine is as mute after a pause as it was at its start.
    have hpaused {rest : Value → Routine} (hmute : ∀ v, (rest v).Mute) :
        (a.withFrame (.routine { f with rest := some rest, returned := none })).Secluded rt₀ :=
      ⟨hstart, fun rest' heq => by
        cases heq
        exact hmute⟩
    have hresumed (r : Routine) (hr : a.resumption f = .ok r) : r.Mute := by
      cases hlater : f.rest with
      | some rest =>
        simp only [resumption, hlater] at hr
        cases hr
        exact hrest rest hlater _
      | none =>
        obtain ⟨i, v, rfl⟩ := start_of_resumption hlater hr
        exact hstart i v
    rw [fetch_routine hframe]
    simp only [step, hframe, stepRoutine]
    refine Act.Blind.bind (.lift hresumed) fun r hr =>
      (Routine.advance_blind hr _).bind fun pause hpause => ?_
    cases pause with
    | finished v =>
      refine .pure (.of_ne ?_ (by simp))
      simp only [Secluded, withResult, hframe]
      exact ⟨hstart, hrest⟩
    | invoke p i rest => exact hpause.elim
    | sleep ticks rest => exact .pure (.of_ne (hpaused hpause) (by simp))
    | wait rest => exact .pure (.of_ne (hpaused hpause) (by simp))

end Activation

/-! ### Contexts -/

/-- All activations of the context execute secluded code. -/
def Context.Secluded (rt : Runtime) (c : Context) : Prop := ∀ a ∈ c.stack, a.Secluded rt

namespace Context

variable {c : Context}

theorem Secluded.nil (hstack : c.stack = []) : c.Secluded rt₀ := by simp [Secluded, hstack]

theorem secluded_cons {callers : List Activation} (hstack : c.stack = a :: callers) :
    c.Secluded rt₀ ↔ a.Secluded rt₀ ∧ ∀ b ∈ callers, b.Secluded rt₀ := by
  rw [Secluded, hstack, List.forall_mem_cons]

theorem fail_blind (c : Context) (why : Fault) :
    Act.Blind rt₀ (fun progress : Progress => progress.context.Secluded rt₀) (c.fail why) where
  same _ _ := rfl
  gives hrt heq := by
    cases heq
    exact ⟨hrt.trans (.of_eq rfl rfl), .nil rfl⟩

theorem proceed_blind (c : Context) {callers : List Activation} {q : Activation × Signal}
    (hq : Activation.StaysSecluded rt₀ q) (hcallers : ∀ b ∈ callers, b.Secluded rt₀) :
    Act.Blind rt₀ (fun progress : Progress => progress.context.Secluded rt₀)
      (c.proceed q.1 callers q.2) := by
  obtain ⟨top, signal⟩ := q
  obtain ⟨htop, hcalled⟩ := hq
  cases signal with
  | proceed => exact .pure ((secluded_cons rfl).mpr ⟨htop, hcallers⟩)
  | returned =>
    cases callers with
    | nil => exact .pure (.nil rfl)
    | cons caller rest =>
      rw [List.forall_mem_cons] at hcallers
      exact .pure ((secluded_cons rfl).mpr ⟨hcallers.1.receive _, hcallers.2⟩)
  | deferred w => exact .pure ((secluded_cons rfl).mpr ⟨htop, hcallers⟩)
  | called d =>
    simp only [proceed]
    cases hpush : push { c with stack := top :: callers } d with
    | pushed c' =>
      simp only [push] at hpush
      split at hpush
      · cases hpush
      · split at hpush
        · cases hpush
        · cases hpush
          refine .pure ((secluded_cons rfl).mpr ⟨hcalled d rfl, ?_⟩)
          exact List.forall_mem_cons.mpr ⟨htop, hcallers⟩
    | overflow why => exact fail_blind _ why
    | foreign b => exact ⟨fun _ _ => rfl, fun _ heq => by cases heq⟩

theorem step_eq_either {top : Activation} {callers : List Activation}
    (hstack : c.stack = top :: callers) (n : Nat)
    (drive : Drive) : c.step n drive = (top.fetch.2.step n drive top.fetch.1).either
      (fun q => c.proceed q.1 callers q.2) fun why =>
        ({ c with stack := top.fetch.2 :: callers } : Context).fail why := by
  funext rt
  simp only [step, hstack, Act.either]
  cases top.fetch.2.step n drive top.fetch.1 rt <;> rfl

theorem step_blind (h : c.Secluded rt₀) (n : Nat) :
    Act.Blind rt₀ (fun progress : Progress => progress.context.Secluded rt₀)
      (c.step n (run n)) := by
  cases hstack : c.stack with
  | nil =>
    have hstep : c.step n (run n) = fun rt => .breach (.emptyContext c.id) rt := by
      funext rt
      simp only [step, hstack]
    rw [hstep]
    exact ⟨fun _ _ => rfl, fun _ heq => by cases heq⟩
  | cons top callers =>
    obtain ⟨htop, hcallers⟩ := (secluded_cons hstack).mp h
    have hkeeps : Act.Preserves Runtime.Steady (top.fetch.2.step n (run n) top.fetch.1) :=
      Runtime.Steady.upkept.carried.step
        (Runtime.Steady.upkept.callWith (Runtime.Steady.upkept.run n)) n _ _
    rw [step_eq_either hstack]
    exact (Activation.step_blind htop n (run n)).either hkeeps (fun q hq =>
      proceed_blind c hq hcallers)
      fun why => fail_blind _ why

/-- A secluded context comes to the same in every runtime with the same code, and stays secluded. -/
theorem run_blind (n : Nat) (h : c.Secluded rt₀) :
    Act.Blind rt₀ (fun q : Value × Context => q.2.Secluded rt₀) (c.run n) := by
  induction n generalizing c with
  | zero => exact ⟨fun _ _ => rfl, fun _ heq => by cases heq⟩
  | succ n ih =>
    have hrun : c.run (n + 1) = c.step n (run n) >>= fun progress =>
        progress.casesOn (run n) fun v c => Pure.pure (v, c) := by
      funext rt
      simp only [run, Act.bind_apply]
      cases c.step n (run n) rt with
      | ok progress rt => cases progress <;> rfl
      | fault e rt => rfl
      | breach b rt => rfl
      | exhausted => rfl
    rw [hrun]
    refine (step_blind h n).bind fun progress hleft => ?_
    cases progress with
    | running c' => exact ih hleft
    | stopped v c' => exact .pure hleft

theorem resume_blind (n : Nat) (h : c.Secluded rt₀) :
    Act.Blind rt₀ (fun q : Value × Context => q.2.Secluded rt₀) (c.resume n) := by
  rw [resume]
  split
  · exact .pure h
  · exact run_blind n h

end Context

end ProcEngine
