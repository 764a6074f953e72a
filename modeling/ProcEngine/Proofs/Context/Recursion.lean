import Mathlib.Logic.Relation
import ProcEngine.Proofs.Context.Opening
import ProcEngine.Proofs.Evaluation.Stack
/-!
# Runaway recursion

A proc that calls itself whenever it runs, directly or through others, runs into the limit of the
context. `Leads` describes what becomes of a stack that may grow without bound, and `Recurs` what it
is to call again and again; the same steps, above callers that wait and in a context that has room
for so many, end with a stack overflow.

The limit is one of a context. Host code that calls back opens another context each time, so that no
limit is ever reached by handlers that call each other.
-/

namespace ProcEngine

/-! ### Stacks without a limit -/

/-- What the innermost activation does in a step, given fuel enough. -/
def Activation.Steps (top : Activation) (rt : Runtime) (a : Activation) (signal : Signal)
    (rt' : Runtime) : Prop :=
  ∃ fuel, top.fetch.2.step fuel (Context.run fuel) top.fetch.1 rt = .ok (a, signal) rt'

/-- A step of a stack that may grow without bound. Its outermost activation neither returns nor
defers nor faults. -/
inductive Onward : List Activation × Runtime → List Activation × Runtime → Prop
  | works {top a : Activation} {callers : List Activation} {rt rt' : Runtime} :
    top.Steps rt a .proceed rt' →
    Onward (top :: callers, rt) (a :: callers, rt')
  | returns {top a caller : Activation} {callers : List Activation} {rt rt' : Runtime} :
    top.Steps rt a .returned rt' → Onward (top :: caller :: callers, rt)
      (caller.receive a.result :: callers, rt')
  | calls {top a d : Activation} {callers : List Activation} {rt rt' : Runtime} :
    top.Steps rt a (.called d) rt' →
    Onward (top :: callers, rt) (d :: a :: callers, rt')

def Leads : List Activation × Runtime → List Activation × Runtime → Prop :=
  Relation.ReflTransGen Onward

/-- Every activation of the kind calls another one of the kind after finitely many steps, before it
returns, defers or faults. -/
def Recurs (kind : Activation → Runtime → Prop) : Prop :=
  ∀ a rt, kind a rt → ∃ d waiting rt', kind d rt' ∧ waiting ≠ [] ∧ Leads ([a], rt)
    (d :: waiting, rt')

/-! ### The limit of a context -/

/-- The runtime after the end of a context that could not hold any more, with the activations that
it held. -/
def Runtime.overflown (rt : Runtime) (id : ContextId) (maxDepth : Nat) (trace : List TraceLine) :
    Runtime :=
  rt.tell (.fault id (.stackOverflow maxDepth) trace)

namespace Context

variable {c : Context} {stack callers : List Activation} {rt rt' : Runtime}

/-- Running the context ends with the fault that it cannot hold any more, and it holds as many as it
may. -/
def Overflows (c : Context) (rt : Runtime) : Prop :=
  ∃ (n : Nat) (rt' : Runtime) (trace : List TraceLine), trace.length = c.maxDepth ∧
    ∀ fuel, n ≤ fuel →
    c.run fuel rt =
      .ok (.null, { c with stack := [], state := .faulted (.stackOverflow c.maxDepth) })
      (rt'.overflown c.id c.maxDepth trace)

theorem own_of_steps {top a : Activation} {signal : Signal} (hown : c.Own (top :: callers))
    (hsteps : top.Steps rt a signal rt') :
    c.Own (a :: callers) ∧ ∀ d, signal = .called d → c.Own (d :: a :: callers) := by
  obtain ⟨n, hstep⟩ := hsteps
  exact own_after_step hown hstep

theorem run_of_steps {top a : Activation} {signal : Signal} (hown : c.Own (top :: callers))
    (hsteps : top.Steps rt a signal rt') : ∃ n, ∀ fuel, n ≤ fuel →
      run (fuel + 1) (c.on (top :: callers)) rt =
        c.follow top.fetch.2 callers fuel (.ok (a, signal) rt') := by
  obtain ⟨n, hstep⟩ := hsteps
  refine ⟨n, fun fuel hfuel => ?_⟩
  have hmore := Activation.step_mono hfuel (run_mono hfuel) top.fetch.2 top.fetch.1 rt
  rw [run_on (hown top List.mem_cons_self), Outcome.eq_of_le hmore (by simp [hstep]), hstep]

theorem overflows_of_steps {top a : Activation} {signal : Signal} {next : List Activation}
    (hown : c.Own (top :: callers)) (hsteps : top.Steps rt a signal rt')
    (hfollow : ∀ fuel, c.follow top.fetch.2 callers fuel (.ok (a, signal) rt') =
      run fuel (c.on next) rt')
    (hthen : (c.on next).Overflows rt') : (c.on (top :: callers)).Overflows rt := by
  obtain ⟨n, hrun⟩ := run_of_steps hown hsteps
  obtain ⟨m, rt₁, trace, htrace, hends⟩ := hthen
  refine ⟨max n m + 1, rt₁, trace, htrace, fun fuel hfuel => ?_⟩
  obtain ⟨fuel, rfl⟩ : ∃ k, fuel = k + 1 := ⟨fuel - 1, by omega⟩
  rw [hrun fuel (by omega), hfollow fuel, hends fuel (by omega)]
  rfl

theorem overflows_of_full {top a d : Activation} (hown : c.Own (top :: callers))
    (hsteps : top.Steps rt a (.called d) rt') (hfull : callers.length + 1 = c.maxDepth) :
    (c.on (top :: callers)).Overflows rt := by
  obtain ⟨n, hrun⟩ := run_of_steps hown hsteps
  refine ⟨n + 1, rt', (c.on (a :: callers)).trace, ?_, fun fuel hfuel => ?_⟩
  · simpa [trace, on] using hfull
  · obtain ⟨fuel, rfl⟩ : ∃ k, fuel = k + 1 := ⟨fuel - 1, by omega⟩
    rw [hrun fuel (by omega), follow, if_pos (Nat.le_of_eq hfull.symm)]
    rfl

/-- Above callers that wait, a stack takes the same step if there is room, and overflows
otherwise. -/
theorem overflows_of_onward {x y : List Activation × Runtime} (h : Onward x y)
    (hown : c.Own (x.1 ++ callers)) (hfits : (x.1 ++ callers).length ≤ c.maxDepth)
    (hthen : c.Own (y.1 ++ callers) → (y.1 ++ callers).length ≤ c.maxDepth →
      (c.on (y.1 ++ callers)).Overflows y.2) :
    (c.on (x.1 ++ callers)).Overflows x.2 := by
  cases h with
  | works hsteps =>
    exact overflows_of_steps hown hsteps (fun _ => rfl) (hthen (own_of_steps hown hsteps).1 hfits)
  | returns hsteps =>
    have hcallers := (own_of_steps hown hsteps).1
    have hcaller : c.Own (_ :: (_ ++ callers)) := fun b hb => hcallers b (List.mem_cons_of_mem _ hb)
    refine overflows_of_steps hown hsteps (fun _ => rfl) (hthen (hcaller.receive _) ?_)
    simp only [List.cons_append, List.length_cons] at hfits ⊢
    omega
  | @calls top a d stack rt rt' hsteps =>
    by_cases hfull : c.maxDepth ≤ (stack ++ callers).length + 1
    · exact overflows_of_full hown hsteps (Nat.le_antisymm hfits hfull)
    · refine overflows_of_steps hown hsteps (fun _ => ?_)
        (hthen ((own_of_steps hown hsteps).2 d rfl) ?_)
      · simp only [List.append_eq, follow, if_neg hfull]
        rfl
      · simp only [List.cons_append, List.length_cons]
        omega

theorem overflows_of_leads {x y : List Activation × Runtime} (h : Leads x y)
    (hown : c.Own (x.1 ++ callers)) (hfits : (x.1 ++ callers).length ≤ c.maxDepth)
    (hthen : c.Own (y.1 ++ callers) → (y.1 ++ callers).length ≤ c.maxDepth →
      (c.on (y.1 ++ callers)).Overflows y.2) :
    (c.on (x.1 ++ callers)).Overflows x.2 := by
  induction h using Relation.ReflTransGen.head_induction_on with
  | refl => exact hthen hown hfits
  | head hfirst _ ih => exact overflows_of_onward hfirst hown hfits fun hown hfits => ih hown hfits

end Context

variable {kind : Activation → Runtime → Prop}

/-- A context in which somebody calls again and again overflows, whoever waits there already. -/
theorem Recurs.overflows (hrecurs : Recurs kind) {c : Context} {a : Activation}
    {callers : List Activation} {rt : Runtime} (hkind : kind a rt) (hown : c.Own (a :: callers))
    (hfits : callers.length < c.maxDepth) :
    (c.on (a :: callers)).Overflows rt := by
  -- Each round leaves less room than the one before.
  induction hroom : c.maxDepth - callers.length using Nat.strongRecOn generalizing a callers rt with
  | ind room ih =>
    obtain ⟨d, waiting, rt', hagain, hwaiting, hleads⟩ := hrecurs a rt hkind
    refine Context.overflows_of_leads hleads hown hfits fun hown' hfits' => ?_
    have hlonger : 0 < waiting.length := List.length_pos_iff.mpr hwaiting
    have hlength : (waiting ++ callers).length = waiting.length + callers.length :=
      List.length_append
    have hfits' : (waiting ++ callers).length < c.maxDepth := hfits'
    exact ih (c.maxDepth - (waiting ++ callers).length) (by omega) hagain hown' hfits' rfl

/-! ### Running it -/

/-- Whatever calls itself again and again is cut off: the context that it is run in ends with a
stack overflow, and a call of it gives null. -/
theorem Recurs.is_cut_off (hrecurs : Recurs kind) (rt : Runtime) (p : ProcRef) (i : Invocation)
    (hdepth : 1 ≤ rt.maxDepth)
    (hkind : ∀ a, (rt.opened p i).1.stack = [a] → kind a (rt.opened p i).2) :
    ∃ (n : Nat) (rt' : Runtime) (trace : List TraceLine), trace.length = rt.maxDepth ∧
      ∀ fuel, n ≤ fuel →
      (rt.opened p i).1.resume fuel (rt.opened p i).2 =
        .ok (.null,
          { (rt.opened p i).1 with stack := [], state := .faulted (.stackOverflow rt.maxDepth) })
          (rt'.overflown (rt.contexts + 1) rt.maxDepth trace) ∧
      Runtime.call fuel p i rt =
        .ok .null ((rt'.overflown (rt.contexts + 1) rt.maxDepth trace).record
          (.stopped (rt.contexts + 1) (.faulted (.stackOverflow rt.maxDepth)))) := by
  let a := (rt.newContext.2.activate p rt.newContext.1.id i).1
  have hown : (rt.opened p i).1.Own [a] := Context.Own.cons rfl (by simp [Context.Own])
  obtain ⟨n, rt', trace, htrace, hends⟩ :=
    hrecurs.overflows (c := (rt.opened p i).1) (hkind a rfl) hown hdepth
  refine ⟨n, rt', trace, htrace, fun fuel hfuel => ?_⟩
  have hresume : (rt.opened p i).1.resume fuel (rt.opened p i).2 = _ := hends fuel hfuel
  refine ⟨hresume, ?_⟩
  rw [Runtime.call, Runtime.callWith_eq, if_neg (by omega), hresume]
  rfl

/-- A script and a routine that call each other without end, in contexts that hold seven
activations. -/
def bouncing : Runtime where
  procs := #[
    { signature := { name := "ping" }, body := .script #[.call "pong" 0, .ret] 0 },
    { signature := { name := "pong" }
      body := .routine false fun _ _ => .ask (.invoke ⟨1, "ping"⟩ {}) fun _ => .done .null }]
  globals := (∅ : Names ProcRef).insert "pong" ⟨2, "pong"⟩
  maxDepth := 7

def IsPing (a : Activation) (rt : Runtime) : Prop :=
  rt.procs = bouncing.procs ∧ rt.globals = bouncing.globals ∧
    ∃ id, a = (bouncing.activate ⟨1, "ping"⟩ id {}).1

theorem recurs_isPing : Recurs IsPing := by
  rintro a rt ⟨hprocs, hglobals, id, rfl⟩
  have hping : rt.proc ⟨1, "ping"⟩ = bouncing.proc ⟨1, "ping"⟩ := by rw [Runtime.proc, hprocs]; rfl
  have hpong : rt.proc ⟨2, "pong"⟩ = bouncing.proc ⟨2, "pong"⟩ := by rw [Runtime.proc, hprocs]; rfl
  have hglobal : rt.global "pong" = .ok ⟨2, "pong"⟩ := by
    rw [Runtime.global, hglobals]
    simp [bouncing]
  let ping : Activation := (bouncing.activate ⟨1, "ping"⟩ id {}).1
  let pong : Activation := (bouncing.activate ⟨2, "pong"⟩ id {}).1
  let bound : ScriptFrame := { code := #[.call "pong" 0, .ret], extra := 0, locals := some #[] }
  let waiting : Activation := ping.withFrame (.script { bound with position := 1 })
  have hbinds : ping.Steps rt (ping.withFrame (.script bound)) .proceed rt := ⟨0, rfl⟩
  have hcalls : (ping.withFrame (.script bound)).Steps rt waiting (.called pong) rt := ⟨0, by
    show (Runtime.ask (fun rt => rt.global "pong") >>= fun p => waiting.call p {}) rt = _
    simp only [Act.bind_apply, Runtime.ask, hglobal]
    simp only [Activation.call, Runtime.enter, Act.bind_apply, Runtime.activate, hpong]
    rfl⟩
  let paused : Activation := pong.withFrame (.routine {
    passThrough := false
    rest := some fun _ => .done .null
    start := fun _ _ => .ask (.invoke ⟨1, "ping"⟩ {}) fun _ => .done .null })
  have hbounces : pong.Steps rt paused (.called ping) rt := ⟨0, by
    show (Activation.call _ ⟨1, "ping"⟩ {}) rt = _
    simp only [Activation.call, Runtime.enter, Act.bind_apply, Runtime.activate, hping]
    rfl⟩
  have hleads : Leads ([ping], rt) ([ping, paused, waiting], rt) :=
    ((Relation.ReflTransGen.single (.works hbinds)).tail (.calls hcalls)).tail (.calls hbounces)
  exact ⟨ping, [paused, waiting], rt, ⟨hprocs, hglobals, id, rfl⟩, by simp, hleads⟩

theorem ping_is_cut_off : Recurs IsPing ∧ 1 ≤ bouncing.maxDepth ∧
    (∀ a, (bouncing.opened ⟨1, "ping"⟩ {}).1.stack = [a] →
      IsPing a (bouncing.opened ⟨1, "ping"⟩ {}).2) ∧
    ∃ n rt, ∀ fuel, n ≤ fuel → Runtime.call fuel ⟨1, "ping"⟩ {} bouncing = .ok .null rt ∧
      rt.chronicle.head? = some (.stopped 1 (.faulted (.stackOverflow 7))) := by
  have hkind : ∀ a, (bouncing.opened ⟨1, "ping"⟩ {}).1.stack = [a] →
      IsPing a (bouncing.opened ⟨1, "ping"⟩ {}).2 := by
    intro a ha
    exact ⟨rfl, rfl, 1, (List.singleton_inj.mp ha).symm⟩
  have hdepth : 1 ≤ bouncing.maxDepth := by decide
  obtain ⟨n, rt, trace, _, hends⟩ := recurs_isPing.is_cut_off bouncing ⟨1, "ping"⟩ {} hdepth hkind
  exact ⟨recurs_isPing, hdepth, hkind, n, _, fun fuel hfuel => ⟨(hends fuel hfuel).2, rfl⟩⟩

/-! ### Handlers that call back -/

def echo : Program HostCalls Value := .ask (.call ⟨1, "echo"⟩ {}) fun _ => .done .null

def echoing : Runtime where
  procs := #[{ signature := { name := "echo" }, body := .handler fun _ => echo }]

/-- A handler that calls a script that calls the handler, in contexts that hold one activation. -/
def calling : Runtime where
  procs := #[
    { signature := { name := "native" }
      body := .handler fun _ => .ask (.call ⟨2, "script"⟩ {}) fun _ => .done (.int 5) },
    { signature := { name := "script" }, body := .script #[.call "native" 0, .ret] 0 }]
  globals := (∅ : Names ProcRef).insert "native" ⟨1, "native"⟩
  maxDepth := 1

theorem echo_exhausts (fuel : Nat) {rt : Runtime} (hprocs : rt.procs = echoing.procs)
    (hdepth : rt.maxDepth ≠ 0) :
    Runtime.callWith (Context.run fuel) ⟨1, "echo"⟩ {} rt = .exhausted := by
  induction fuel generalizing rt with
  | zero => rw [Runtime.callWith_eq, if_neg hdepth]; rfl
  | succ fuel ih =>
    -- The call that it makes runs in the next context, with less fuel and with as much room as
    -- before.
    have hproc : (rt.newContext.2.proc ⟨1, "echo"⟩) = echoing.proc ⟨1, "echo"⟩ := by
      rw [Runtime.proc, show rt.newContext.2.procs = _ from hprocs]
      rfl
    have hagain : Runtime.callWith (Context.run fuel) ⟨1, "echo"⟩ {} rt.newContext.2 = .exhausted :=
      ih hprocs hdepth
    let a : Activation := (echoing.activate ⟨1, "echo"⟩ (rt.contexts + 1) {}).1
    have hopened : rt.opened ⟨1, "echo"⟩
        {} = ((rt.opened ⟨1, "echo"⟩ {}).1.on [a], rt.newContext.2) := by
      simp only [Runtime.opened, Runtime.activate, hproc]
      rfl
    have hstep : a.fetch.2.step fuel (Context.run fuel) a.fetch.1 rt.newContext.2 = .exhausted := by
      show (echo.run (Runtime.serve fuel (Context.run fuel)) >>= fun v =>
        Pure.pure (a.withResult v, Signal.returned))
        rt.newContext.2 = _
      simp only [Act.bind_apply, echo, Program.run, Runtime.serve, hagain]
    rw [Runtime.callWith_eq, if_neg hdepth, hopened, Context.run_on rfl, hstep]
    rfl

/-- No limit stops handlers that call back, and a limit that a script in between runs into is not
theirs. -/
theorem handlers_are_not_cut_off : (∀ fuel, Runtime.call fuel ⟨1, "echo"⟩ {} echoing = .exhausted) ∧
    ∃ rt, Runtime.call 9 ⟨1, "native"⟩ {} calling = .ok (.int 5) rt ∧ rt.chronicle =
      [.stopped 1 .returned, .stopped 2 (.faulted (.stackOverflow 1)), .created 2, .created 1] := by
  constructor
  · intro fuel
    have hsame : Runtime.call fuel ⟨1, "echo"⟩ {} echoing =
        Runtime.callWith (Context.run fuel) ⟨1, "echo"⟩ {} echoing := by
      rw [Runtime.call, Runtime.callWith_eq, Runtime.callWith_eq]
      rfl
    rw [hsame]
    exact echo_exhausts fuel rfl (by decide)
  · exact ⟨_, rfl, rfl⟩

end ProcEngine
