import ProcEngine.Proofs.Context.Awake
import ProcEngine.Proofs.Context.Course
/-!
# Steps in tandem

A context and its like in an awake runtime take a step each. As long as neither starts a context of
its own, the two steps come to the same (`InTandem`), but that a sleep stops the one and lets the
other go on: all that a frame holds is on the stack either way.
-/

namespace ProcEngine

variable {α β γ δ : Type} {φ : α → β} {ψ : γ → δ} {k : Nat}

/-! ### Host code -/

theorem Act.lift_ok_bind {σ : Type} (a : α) (f : α → Act σ β) :
    ((liftM (Except.ok a : Except Fault α) : Act σ α) >>= f) = f a := rfl

/-- Whatever `x` leaves, there are more than `k` contexts in it. -/
def Outcome.Beyond (k : Nat) (x : Outcome Runtime α) : Prop :=
  ∀ rt, x.state? = some rt → k < rt.contexts

/-- As long as there are no more than `k` contexts, `y` comes to what `x` comes to. -/
def Outcome.Agrees (k : Nat) (φ : α → β) (x : Outcome Runtime α) (y : Outcome Runtime β) : Prop :=
  y = x.awake φ ∨ x.Beyond k ∧ y.Beyond k

theorem Act.beyond_bind {x : Act Runtime α} {f : α → Act Runtime β} {rt : Runtime}
    (hx : (x rt).Beyond k) (hf : ∀ a, Act.Preserves Keeps (f a)) : ((x >>= f) rt).Beyond k := by
  intro rt' hs
  rw [bind_apply] at hs
  cases hrun : x rt with
  | ok a rt₁ =>
    rw [hrun] at hs hx
    exact Nat.lt_of_lt_of_le (hx rt₁ rfl) (hf a rt₁ rt' hs).contexts
  | fault e rt₁ =>
    rw [hrun] at hs hx
    exact hx rt' hs
  | breach b rt₁ => simp [hrun, Outcome.state?] at hs
  | exhausted => simp [hrun, Outcome.state?] at hs

theorem Act.agrees_bind {x : Act Runtime α} {y : Act Runtime β} {f : α → Act Runtime γ}
    {g : β → Act Runtime δ}
    {rt : Runtime} (hx : (x rt).Agrees k φ (y rt.awake)) (hfg : ∀ a, Act.Awakens ψ (f a) (g (φ a)))
    (hf : ∀ a, Act.Preserves Keeps (f a)) (hg : ∀ b, Act.Preserves Keeps (g b)) :
    ((x >>= f) rt).Agrees k ψ ((y >>= g) rt.awake) := by
  obtain hsame | ⟨hx, hy⟩ := hx
  · left
    rw [bind_apply, bind_apply, hsame]
    cases x rt with
    | ok a rt₁ => exact hfg a rt₁
    | fault e rt₁ => rfl
    | breach b rt₁ => rfl
    | exhausted => rfl
  · exact Or.inr ⟨beyond_bind hx hf, beyond_bind hy hg⟩

/-- Hands an answer or a fault to what goes on with it. -/
def Outcome.hand (x : Outcome Runtime α) (f : Except Fault α → Act Runtime β) : Outcome Runtime β :=
  match x with
  | .ok a rt => f (.ok a) rt
  | .fault e rt => f (.error e) rt
  | .breach b rt => .breach b rt
  | .exhausted => .exhausted

theorem Outcome.beyond_hand {x : Outcome Runtime α} {f : Except Fault α → Act Runtime β}
    (hx : x.Beyond k) (hf : ∀ answer, Act.Preserves Keeps (f answer)) : (x.hand f).Beyond k := by
  intro rt hs
  cases x with
  | ok a rt₁ => exact Nat.lt_of_lt_of_le (hx rt₁ rfl) (hf (.ok a) rt₁ rt hs).contexts
  | fault e rt₁ => exact Nat.lt_of_lt_of_le (hx rt₁ rfl) (hf (.error e) rt₁ rt hs).contexts
  | breach b rt₁ => cases hs
  | exhausted => cases hs

theorem Outcome.agrees_hand {x y : Outcome Runtime α} {f : Except Fault α → Act Runtime β}
    (h : x.Agrees k id y) (hx : ∀ rt, x.state? = some rt → k ≤ rt.contexts)
    (hf : ∀ answer, Act.Preserves Keeps (f answer))
    (hagrees : ∀ answer rt, k ≤ rt.contexts → (f answer rt).Agrees k id (f answer rt.awake)) :
    (x.hand f).Agrees k id (y.hand f) := by
  obtain rfl | ⟨hleft, hright⟩ := h
  · cases x with
    | ok a rt => exact hagrees (.ok a) rt (hx rt rfl)
    | fault e rt => exact hagrees (.error e) rt (hx rt rfl)
    | breach b rt => exact Or.inl rfl
    | exhausted => exact Or.inl rfl
  · exact Or.inr ⟨beyond_hand hleft hf, beyond_hand hright hf⟩

theorem Program.run_ask {i : Interface} (serve : (r : i.Request) → Act Runtime (i.Answer r))
    (r : i.Request) (next : Except Fault (i.Answer r) → Program i α) (rt : Runtime) :
    run serve (.ask r next) rt = (serve r rt).hand fun answer => (next answer).run serve := by
  cases hserve : serve r rt <;> simp only [run, hserve, Outcome.hand]

theorem Routine.advance_host (serve : Serve) (r : HostRequest)
    (next : Except Fault (RoutineCalls.Answer (.host r)) → Routine) (rt : Runtime) :
    advance serve (.ask (.host r) next) rt = (serve r rt).hand fun answer =>
      advance serve (next answer) := by
  cases hserve : serve r rt <;> simp only [advance, hserve, Outcome.hand] <;> rfl

section

variable {drive : Drive} (hdrive : drive.IsLawful)
include hdrive

/-- A call by host code starts a context. -/
theorem Runtime.callWith_beyond (p : ProcRef) (i : Invocation) {rt : Runtime}
    (hk : k ≤ rt.contexts) :
    (callWith drive p i rt).Beyond k := by
  have hopened (rt : Runtime) : rt.contexts < (rt.opened p i).2.contexts :=
    Nat.lt_of_succ_le (Keeps.opened rt p i).contexts
  have hstarts : Act.Preserves (fun rt rt' => rt.contexts < rt'.contexts) (callWith drive p i) := by
    refine preserves_callWith (fun rt _ => hopened rt) fun rt _ =>
      (hdrive _ _).mono fun q rt' h => ?_
    have hmore := Nat.lt_of_lt_of_le (hopened rt) h.1.contexts
    rw [leave]
    split <;> exact hmore
  exact fun rt' hs => Nat.lt_of_le_of_lt hk (hstarts rt rt' hs)

theorem Runtime.serve_agrees (fuel : Nat) (r : HostRequest) {rt : Runtime} (hk : k ≤ rt.contexts) :
    (serve fuel drive r rt).Agrees k id (serve fuel drive r rt.awake) := by
  cases r with
  | table r => exact Or.inl (Act.Awakens.onStore _ rt)
  | global name => exact Or.inl (Act.Awakens.ask (fun rt => rt.global name) (fun _ => rfl) rt)
  | method o name =>
    exact Or.inl (Act.Awakens.ask (fun rt => rt.objects.proc o name) (fun _ => rfl) rt)
  | method? o name =>
    exact Or.inl (Act.Awakens.ask (fun rt => rt.objects.proc? o name) (fun _ => rfl) rt)
  | call p i =>
    have hk' : k ≤ rt.awake.contexts := hk
    exact Or.inr ⟨callWith_beyond hdrive p i hk, callWith_beyond hdrive p i hk'⟩
  | construct path arguments usr =>
    have hallocate := Act.Awakens.onStore (Store.serve fuel (.allocate path)) rt
    have hmore := Keeps.carried.onStore (Working.serve fuel (.allocate path)) rt
    cases hrun : onStore (Store.serve fuel (.allocate path)) rt with
    | ok o rt₁ =>
      rw [hrun] at hallocate hmore
      have hk₁ : k ≤ rt₁.contexts := Nat.le_trans hk (hmore rt₁ rfl).contexts
      have hstarts {rt rt₁ : Runtime}
          (hrun : onStore (Store.serve fuel (.allocate path)) rt = .ok o rt₁)
          (hk₁ : k ≤ rt₁.contexts) : (constructWith fuel drive path arguments usr rt).Beyond k := by
        simp only [constructWith, Act.bind_apply, hrun]
        exact Act.beyond_bind (callWith_beyond hdrive init _ hk₁) fun _ => Act.Preserves.pure o
      exact Or.inr ⟨hstarts hrun hk₁, hstarts hallocate hk₁⟩
    | _ =>
      left
      show constructWith fuel drive path arguments usr rt.awake =
        (constructWith fuel drive path arguments usr rt).awake id
      simp only [constructWith, Act.bind_apply, hallocate, hrun]
      rfl
  | initializer o =>
    exact Or.inl (Act.Awakens.ask (fun rt => (rt.objects.definition o).map Definition.initializer)
      (fun _ => rfl) rt)
  | created o arguments =>
    refine Or.inl
      (Act.Awakens.bind (Act.Awakens.ask (fun rt => rt.objects.definition o) fun _ => rfl)
      (fun d => ?_) rt)
    rw [id_eq]
    cases d.hooks with
    | none => exact .pure _
    | some hooks => exact (Act.Awakens.onStore _).bind fun _ => .pure _

theorem Runtime.le_of_serve (fuel : Nat) (r : HostRequest) {rt : Runtime} (hk : k ≤ rt.contexts)
    (rt' : Runtime) (hs : (serve fuel drive r rt).state? = some rt') : k ≤ rt'.contexts :=
  Nat.le_trans hk (Keeping.serve hdrive fuel r rt rt' hs).contexts

theorem Program.run_agrees (fuel : Nat) (p : Program HostCalls α) {rt : Runtime}
    (hk : k ≤ rt.contexts) :
    (p.run (Runtime.serve fuel drive) rt).Agrees k id
      (p.run (Runtime.serve fuel drive) rt.awake) := by
  induction p generalizing rt with
  | done a => exact Or.inl rfl
  | fail e => exact Or.inl rfl
  | ask r next ih =>
    have hkeeps (answer : Except Fault r.Answer) :
        Keeping ((next answer).run (Runtime.serve fuel drive)) :=
      Act.Preserves.run (Keeping.serve hdrive fuel) (next answer)
    rw [run_ask, run_ask]
    exact Outcome.agrees_hand (Runtime.serve_agrees hdrive fuel r hk)
      (Runtime.le_of_serve hdrive fuel r hk) hkeeps
      fun answer rt₁ hk₁ => ih answer hk₁

theorem Routine.advance_agrees (fuel : Nat) (r : Routine) {rt : Runtime} (hk : k ≤ rt.contexts) :
    (r.advance (Runtime.serve fuel drive) rt).Agrees k id
      (r.advance (Runtime.serve fuel drive) rt.awake) := by
  induction r generalizing rt with
  | done v => exact Or.inl rfl
  | fail e => exact Or.inl rfl
  | ask r next ih =>
    cases r with
    | host r =>
      have hkeeps (answer : Except Fault r.Answer) :=
        Keeps.carried.advance (Keeping.callWith hdrive) fuel (next answer)
      rw [advance_host, advance_host]
      exact Outcome.agrees_hand (Runtime.serve_agrees hdrive fuel r hk)
        (Runtime.le_of_serve hdrive fuel r hk) hkeeps
        fun answer rt₁ hk₁ => ih answer hk₁
    | invoke p i => exact Or.inl rfl
    | sleep ticks => exact Or.inl rfl
    | wait => exact Or.inl rfl

/-- A step that is no sleep is the same step. -/
theorem Activation.step_agrees (fuel : Nat) (a : Activation) {instr : Option Instr}
    (hinstr : instr ≠ some .sleep) {rt : Runtime} (hk : k ≤ rt.contexts) :
    (a.step fuel drive instr rt).Agrees k awakeStep
      (a.awake.step fuel drive (instr.map Instr.awake) rt.awake) := by
  cases hframe : a.frame with
  | script f =>
    have hframe' : a.awake.frame = .script f.awake := by rw [awake, hframe]; rfl
    simp only [step, hframe, hframe']
    exact Or.inl (stepScript_awakens fuel a f hinstr rt)
  | handler run =>
    have hframe' : a.awake.frame = .handler run := by rw [awake, hframe]; rfl
    have hbound : a.awake.bound = a.bound := rfl
    simp only [step, hframe, hframe', hbound]
    cases a.bound with
    | error e => exact Or.inl rfl
    | ok i =>
      rw [Act.lift_ok_bind, Act.lift_ok_bind]
      exact Act.agrees_bind (Program.run_agrees hdrive fuel (run i) hk)
        (fun v => .pure (a.withResult v, Signal.returned)) (fun _ => Act.Preserves.pure _) fun _ =>
          Act.Preserves.pure _
  | routine f =>
    have hframe' : a.awake.frame = .routine f := by rw [awake, hframe]; rfl
    have hresumption : a.awake.resumption f = a.resumption f := rfl
    simp only [step, hframe, hframe', stepRoutine, hresumption]
    cases a.resumption f with
    | error e => exact Or.inl rfl
    | ok r =>
      rw [Act.lift_ok_bind, Act.lift_ok_bind]
      refine Act.agrees_bind (Routine.advance_agrees hdrive fuel r hk) (fun pause => ?_)
        (fun pause => ?_)
        fun pause => ?_
      · cases pause with
        | finished v => exact .pure (a.withResult v, Signal.returned)
        | invoke p i rest => exact call_awakens (a.withFrame _) p i
        | sleep ticks rest => exact .pure (a.withFrame _, Signal.deferred (.ticks ticks))
        | wait rest => exact .pure (a.withFrame _, Signal.deferred .external)
      · cases pause with
        | invoke p i rest => exact Keeps.carried.call _ p i
        | _ => exact Act.Preserves.pure _
      · cases pause with
        | invoke p i rest => exact Keeps.carried.call _ p i
        | _ => exact Act.Preserves.pure _

end

/-! ### Contexts -/

namespace Context

/-- The same context in an awake runtime, whatever either of them may be waiting for. -/
def Alike (c c' : Context) : Prop := ∃ s, c' = { c.awake with state := s }

/-- What a script is about to sleep for. -/
def slept? (c : Context) : Option Value :=
  match c.stack with
  | [] => none
  | top :: _ =>
    match top.frame with
    | .script f => if top.fetch.1 = some .sleep then f.operands.head? else none
    | _ => none

/-- A sleep that is to be executed next is given no text, object or proc. -/
def SleepFits (c : Context) : Prop :=
  ∀ v ∈ c.slept?, v.kind ≠ .text ∧ v.kind ≠ .object ∧ v.kind ≠ .proc

instance (c : Context) : Decidable c.SleepFits := inferInstanceAs (Decidable (∀ v ∈ c.slept?, _))

/-- Two contexts go on alike, or have come to the same end. -/
inductive Progress.Alike : Progress → Progress → Prop
  | on {p p' : Progress} : p.context.Alike p'.context → ¬ p.context.isFinished →
    ¬ p'.context.isFinished → Alike p p'
  | ended {v : Value} {c c' : Context} : c.isFinished → c'.state = c.state → Alike (.stopped v c)
    (.stopped v c')

/-- Two steps come to the same, unless they start contexts. -/
inductive InTandem (k : Nat) : Outcome Runtime Progress → Outcome Runtime Progress → Prop
  | together {p p' : Progress} {rt : Runtime} : p.Alike p' → InTandem k (.ok p rt) (.ok p' rt.awake)
  | apart {x y : Outcome Runtime Progress} : (∀ p rt, x = .ok p rt → k < rt.contexts) →
    (∀ p rt, y = .ok p rt → k < rt.contexts) → InTandem k x y

variable {c c' : Context}

theorem Alike.awake (halike : c.Alike c') : c'.id = c.id ∧ c'.maxDepth = c.maxDepth ∧
    c'.stack = c.stack.map Activation.awake := by
  obtain ⟨s, rfl⟩ := halike
  exact ⟨rfl, rfl, rfl⟩

/-- Two contexts that go on alike. -/
theorem Alike.on (halike : c.Alike c') (stack : List Activation) :
    Alike { c with stack } { c' with stack := stack.map Activation.awake } := by
  obtain ⟨s, rfl⟩ := halike
  exact ⟨s, rfl⟩

theorem trace_awake (c : Context) : c.awake.trace = c.trace := by
  simp only [trace, awake, List.map_map]
  exact List.map_congr_left fun a _ => a.traceLine_awake

theorem fail_tandem (halike : c.Alike c') (stack : List Activation) (why : Fault) (rt : Runtime) :
    InTandem k ({ c with stack }.fail why rt)
      ({ c' with stack := stack.map Activation.awake }.fail why rt.awake) := by
  obtain ⟨s, rfl⟩ := halike
  have htrace : { c.awake with stack := stack.map Activation.awake, state := s }.trace =
      { c with stack }.trace :=
    trace_awake { c with stack }
  simp only [fail, Runtime.abort, htrace]
  exact .together (.ended rfl rfl)

theorem proceed_tandem (halike : c.Alike c') (hc : ¬ c.isFinished) (hc' : ¬ c'.isFinished)
    (top : Activation) (callers : List Activation) (signal : Signal) (rt : Runtime) :
    InTandem k (c.proceed top callers signal rt)
      (c'.proceed top.awake (callers.map Activation.awake) signal.awake rt.awake) := by
  cases signal with
  | proceed => exact .together (.on (halike.on (top :: callers)) hc hc')
  | returned =>
    cases callers with
    | nil => exact .together (.ended rfl rfl)
    | cons caller rest =>
      have hgoesOn := halike.on (caller.receive top.result :: rest)
      rw [List.map_cons, ← Activation.receive_awake] at hgoesOn
      exact .together (.on hgoesOn hc hc')
  | deferred w =>
    obtain ⟨s, rfl⟩ := halike
    exact .together (.on ⟨.deferred w, rfl⟩ Bool.false_ne_true Bool.false_ne_true)
  | called callee =>
    have hfail := fail_tandem (k := k) halike (top :: callers) (.stackOverflow c.maxDepth) rt
    have hgoesOn := halike.on (callee :: top :: callers)
    obtain ⟨hid, hdepth, _⟩ := halike.awake
    rw [hid, hdepth] at hfail hgoesOn
    have hcontext : callee.awake.context = callee.context := rfl
    have hlength : (top.awake :: callers.map Activation.awake).length =
        (top :: callers).length := by simp
    simp only [proceed, Signal.awake, push, hcontext, hid, hdepth, hlength]
    by_cases hown : callee.context ≠ c.id
    · simp only [if_pos hown]
      exact .apart (fun _ _ h => by cases h) fun _ _ h => by cases h
    · simp only [if_neg hown]
      by_cases hfull : c.maxDepth ≤ (top :: callers).length
      · simp only [if_pos hfull]
        exact hfail
      · simp only [if_neg hfull]
        exact .together (.on hgoesOn hc hc')

/-- Goes on with what the innermost activation has come to. -/
def settle (c : Context) (top : Activation) (callers : List Activation) :
    Outcome Runtime (Activation × Signal) → Outcome Runtime Progress
  | .ok (a, signal) rt => c.proceed a callers signal rt
  | .fault why rt => { c with stack := top :: callers }.fail why rt
  | .breach b rt => .breach b rt
  | .exhausted => .exhausted

theorem step_eq_settle {top : Activation} {callers : List Activation}
    (hstack : c.stack = top :: callers) (fuel : Nat) (drive : Drive) (rt : Runtime) :
    c.step fuel drive rt =
      c.settle top.fetch.2 callers (top.fetch.2.step fuel drive top.fetch.1 rt) := by
  simp only [step, hstack]
  cases top.fetch.2.step fuel drive top.fetch.1 rt <;> rfl

theorem settle_beyond {top : Activation} {callers : List Activation}
    {x : Outcome Runtime (Activation × Signal)}
    (hx : x.Beyond k) (p : Progress) (rt : Runtime) (h : c.settle top callers x = .ok p rt) :
    k < rt.contexts := by
  cases x with
  | ok q rt₁ =>
    have hmore := ((c.proceed_gives q.1 callers q.2 rt₁).of_ok h).1.contexts
    exact Nat.lt_of_lt_of_le (hx rt₁ rfl) hmore
  | fault e rt₁ =>
    cases h
    exact hx rt₁ rfl
  | breach b rt₁ => cases h
  | exhausted => cases h

theorem settle_tandem (halike : c.Alike c') (hc : ¬ c.isFinished) (hc' : ¬ c'.isFinished)
    (top : Activation) (callers : List Activation) {x y : Outcome Runtime (Activation × Signal)}
    (h : x.Agrees k Activation.awakeStep y) :
    InTandem k (c.settle top callers x) (c'.settle top.awake (callers.map Activation.awake) y) := by
  obtain rfl | ⟨hx, hy⟩ := h
  · cases x with
    | ok q rt => exact proceed_tandem halike hc hc' q.1 callers q.2 rt
    | fault e rt => exact fail_tandem halike (top :: callers) e rt
    | breach b rt => exact .apart (fun _ _ h => by cases h) fun _ _ h => by cases h
    | exhausted => exact .apart (fun _ _ h => by cases h) fun _ _ h => by cases h
  · exact .apart (settle_beyond hx) (settle_beyond hy)

theorem asInt_of_fits {v : Value} (h : v.kind ≠ .text ∧ v.kind ≠ .object ∧ v.kind ≠ .proc) :
    ∃ n, v.asInt = .ok n := by
  cases v with
  | null | int i | float x => exact ⟨_, rfl⟩
  | text s => exact absurd rfl h.1
  | object o => exact absurd rfl h.2.1
  | proc p => exact absurd rfl h.2.2

/-- A sleep stops the one context, and the other goes on. -/
theorem sleep_tandem {drive : Drive} (fuel : Nat) (halike : c.Alike c') (hc : ¬ c.isFinished)
    (hc' : ¬ c'.isFinished) (hfits : c.SleepFits) {top : Activation} {callers : List Activation}
    (hstack : c.stack = top :: callers) (hinstr : top.fetch.1 = some .sleep) (rt : Runtime) :
    InTandem k (c.settle top.fetch.2 callers (top.fetch.2.step fuel drive top.fetch.1 rt))
      (c'.settle top.fetch.2.awake (callers.map Activation.awake)
        (top.fetch.2.awake.step fuel drive (top.fetch.1.map Instr.awake) rt.awake)) := by
  cases hframe : top.frame with
  | script f =>
    obtain ⟨hlocals, _, hfetch⟩ := Activation.fetch_of_some hframe hinstr
    rw [hfetch, hinstr]
    have hticks : ∀ v rest, f.operands = v :: rest → ∃ n, v.asInt = .ok n := fun v rest hoperands =>
      asInt_of_fits (hfits v (by simp [slept?, hstack, hframe, hinstr, hoperands]))
    let a := top.withFrame (.script { f with position := f.position + 1 })
    obtain hsame | ⟨b, n, hsleeps, hpops⟩ :=
      a.stepScript_sleep fuel (f := { f with position := f.position + 1 }) hlocals hticks rt
    · exact settle_tandem halike hc hc' a callers (Or.inl hsame)
    · have hsettle : c.settle a callers (a.step fuel drive (some .sleep) rt) =
          .ok (.stopped b.result { c with stack := b :: callers, state := .deferred (.ticks n) })
            rt := by
        rw [show a.step fuel drive (some .sleep) rt = _ from hsleeps]
        rfl
      have hsettle' : c'.settle a.awake (callers.map Activation.awake)
          (a.awake.step fuel drive (some .pop) rt.awake) =
          .ok (.running { c' with stack := (b :: callers).map Activation.awake }) rt.awake := by
        rw [show a.awake.step fuel drive (some .pop) rt.awake = _ from hpops]
        rfl
      show InTandem k (c.settle a callers (a.step fuel drive (some .sleep) rt)) (c'.settle a.awake
        (callers.map Activation.awake) (a.awake.step fuel drive (some .pop) rt.awake))
      rw [hsettle, hsettle']
      obtain ⟨s, rfl⟩ := halike
      exact .together (.on ⟨s, rfl⟩ Bool.false_ne_true hc')
  | handler run => simp [Activation.fetch, hframe] at hinstr
  | routine f => simp [Activation.fetch, hframe] at hinstr

/-- A step of a context and the same step in an awake runtime. -/
theorem step_tandem {drive : Drive} (hdrive : drive.IsLawful) (fuel : Nat) (halike : c.Alike c')
    (hc : ¬ c.isFinished)
    (hc' : ¬ c'.isFinished) (hfits : c.SleepFits) {rt : Runtime} (hk : k ≤ rt.contexts) :
    InTandem k (c.step fuel drive rt) (c'.step fuel drive rt.awake) := by
  obtain ⟨_, _, hstack'⟩ := halike.awake
  cases hstack : c.stack with
  | nil =>
    rw [hstack] at hstack'
    have hnone {c : Context} {rt : Runtime} (hstack : c.stack = []) :
        c.step fuel drive rt = .breach (.emptyContext c.id) rt := by
      simp only [step, hstack]
    rw [hnone hstack, hnone hstack']
    exact .apart (fun _ _ h => by cases h) fun _ _ h => by cases h
  | cons top callers =>
    rw [hstack, List.map_cons] at hstack'
    rw [step_eq_settle hstack, step_eq_settle hstack', Activation.fetch_awake]
    by_cases hinstr : top.fetch.1 = some .sleep
    · exact sleep_tandem fuel halike hc hc' hfits hstack hinstr rt
    · exact settle_tandem halike hc hc' _ callers
        (Activation.step_agrees hdrive fuel top.fetch.2 hinstr hk)

end Context

end ProcEngine
