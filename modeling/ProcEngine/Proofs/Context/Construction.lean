import ProcEngine.Proofs.Context.Calls
import ProcEngine.Proofs.Context.Opening
import ProcEngine.Proofs.Context.Stages
import ProcEngine.Proofs.Object.Typing
/-!
# Construction goes stage by stage

Over the life of the activation that constructs an object (`Construction.Story`) its stages come in
their order and none of them twice, however often what it calls defers. It ends with the return of
the object, or with the fault that ends the context. A script that constructs and a call from
outside both come to such a life.
-/

namespace ProcEngine

open Construction

/-- The step ends the context with a fault. The objects are as they were when it was raised. -/
def Moment.EndsWith (m : Moment) (why : Fault) (raised : Runtime) : Prop :=
  ∃ rt, m.outcome = .ok (.stopped .null { m.context with stack := [], state := .faulted why }) rt ∧
    rt.objects = raised.objects

namespace Construction

inductive Standing
  | due (stage : Stage)
  | returned
  | faulted (why : Fault)

section Life

variable (object : ObjectRef) (i : Invocation) (callers : List Activation)

/-- The life of an activation that constructs an object on top of `callers`, moment by moment, the
latest first: the moments at which it takes a step, and those at which it waits for what it has
called. -/
inductive Story : List Moment → Standing → Prop
  | begins : Story [] (.due .begun)
  /-- What it has called is at work, stops the context or is taken up again. -/
  | waits {since : List Moment} {stage : Stage} {m : Moment} {a : Activation} :
    Story since (.due stage) →
    a.AtStage object i stage → Above a callers m.context.stack → Story (m :: since) (.due stage)
  | calls {since : List Moment} {stage next : Stage} {m : Moment} {a : Activation} {p : ProcRef}
    {j : Invocation} {rt : Runtime} : Story since (.due stage) → m.context.stack = a :: callers →
      a.AtStage object i stage →
    stage.move m.fuel object i m.runtime = .ok (.calls p j next) rt → stage.rank < next.rank →
    m.outcome =
      .ok
        (.running
          (m.context.on ((rt.activate p a.context j).1 :: a.turned object i next :: callers)))
      (rt.activate p a.context j).2 →
    Story (m :: since) (.due next)
  | returns {since : List Moment} {stage : Stage} {m : Moment} {a : Activation} {rt : Runtime} :
    Story since (.due stage) → m.context.stack = a :: callers → a.AtStage object i stage →
    stage.move m.fuel object i m.runtime = .ok .returns rt → m.value? = some (.object object) →
    Story (m :: since) .returned
  | faults {since : List Moment} {stage : Stage} {m : Moment} {a : Activation} {why : Fault}
    {rt : Runtime} :
    Story since (.due stage) → m.context.stack = a :: callers → a.AtStage object i stage →
    stage.move m.fuel object i m.runtime = .fault why rt → m.EndsWith why rt → Story (m :: since)
      (.faulted why)
  /-- The context may not hold what is called. -/
  | overflows {since : List Moment} {stage next : Stage} {m : Moment} {a : Activation} {p : ProcRef}
    {j : Invocation} {rt : Runtime} : Story since (.due stage) → m.context.stack = a :: callers →
      a.AtStage object i stage →
    stage.move m.fuel object i m.runtime = .ok (.calls p j next) rt →
      m.context.maxDepth ≤ callers.length + 1 →
    m.EndsWith (.stackOverflow m.context.maxDepth) rt → Story (m :: since)
      (.faulted (.stackOverflow m.context.maxDepth))
  /-- What it has called ends the context with a fault. -/
  | falls {since : List Moment} {stage : Stage} {m : Moment} {a top : Activation}
    {below shown : List Activation}
    {why : Fault} {rt : Runtime} : Story since (.due stage) → a.AtStage object i stage →
    Above a callers m.context.stack → m.Faults top below shown why rt → m.EndsWith why rt →
    Story (m :: since) (.faulted why)

def handed (v : Value) : List Activation :=
  match callers with
  | [] => []
  | caller :: rest => caller.receive v :: rest

/-- What has become of a construction since it began. -/
inductive Result : (since : List Moment) → Context → Prop
  | due {since : List Moment} {stage : Stage} {a : Activation} {c : Context} :
    Story object i callers since (.due stage) →
    a.AtStage object i stage → c.stack = a :: callers ∨ Above a callers c.stack → Result since c
  | returned {after life : List Moment} {c : Context} : Story object i callers life .returned →
    (contextBefore after c).stack = handed callers (.object object) → Result (after ++ life) c
  | faulted {since : List Moment} {why : Fault} {c : Context} :
    Story object i callers since (.faulted why) →
    c.state = .faulted why → c.stack = [] → Result since c

end Life

/-- The construction on top of `callers` is about to take its step of the stage. -/
def IsDue (object : ObjectRef) (i : Invocation) (callers : List Activation) (m : Moment)
    (stage : Stage) : Prop :=
  ∃ a, m.context.stack = a :: callers ∧ a.AtStage object i stage

section Order

variable {object : ObjectRef} {i : Invocation} {callers : List Activation}
  {since : List Moment} {m : Moment} {a : Activation} {stage stage' : Stage} {standing : Standing}

theorem IsDue.unique (h : IsDue object i callers m stage) (h' : IsDue object i callers m stage') :
    stage = stage' := by
  obtain ⟨a, hstack, ha⟩ := h
  obtain ⟨a', hstack', ha'⟩ := h'
  obtain ⟨rfl, _⟩ := List.cons.inj (hstack.symm.trans hstack')
  exact ha.unique ha'

theorem not_isDue_of_above (habove : Above a callers m.context.stack) :
    ¬ IsDue object i callers m stage := by
  rintro ⟨a', hstack, _⟩
  obtain ⟨b, inner, habove⟩ := habove
  have hlength := congrArg List.length (hstack.symm.trans habove)
  simp only [List.length_cons, List.length_append] at hlength
  omega

theorem Story.passed (h : Story object i callers since standing) (hdue : standing = .due stage) :
    ∀ m ∈ since, ∀ stage', IsDue object i callers m stage' → stage'.rank < stage.rank := by
  induction h generalizing stage with
  | begins => simp
  | waits _ _ habove ih =>
    refine List.forall_mem_cons.mpr ⟨fun stage' hm => ?_, ih hdue⟩
    exact (not_isDue_of_above habove hm).elim
  | @calls since before next m a p j rt _ hstack ha _ hlater _ ih =>
    cases hdue
    refine List.forall_mem_cons.mpr ⟨fun stage' hm => ?_, fun m' hm' stage' hm => ?_⟩
    · obtain rfl := IsDue.unique ⟨a, hstack, ha⟩ hm
      exact hlater
    · exact Nat.lt_trans (ih rfl m' hm' stage' hm) hlater
  | returns | faults | overflows | falls => cases hdue

/-- The stages are gone through in their order and none of them twice. -/
theorem Story.ordered (h : Story object i callers since standing) :
    since.Pairwise fun m m' => ∀ stage stage', IsDue object i callers m stage →
      IsDue object i callers m' stage' →
      stage'.rank < stage.rank := by
  have hown {since : List Moment} {stage : Stage} {m : Moment} {a : Activation}
      (hstory : Story object i callers since (.due stage)) (hstack : m.context.stack = a :: callers)
      (ha : a.AtStage object i stage) :
        ∀ m' ∈ since, ∀ stage' stage'', IsDue object i callers m stage' →
        IsDue object i callers m' stage'' → stage''.rank < stage'.rank := by
    intro m' hm' stage' stage'' hm hm''
    obtain rfl := IsDue.unique ⟨a, hstack, ha⟩ hm
    exact hstory.passed rfl m' hm' stage'' hm''
  induction h with
  | begins => exact List.Pairwise.nil
  | waits _ _ habove ih | falls _ _ habove _ _ ih =>
    exact List.pairwise_cons.mpr ⟨fun _ _ _ _ hm => (not_isDue_of_above habove hm).elim, ih⟩
  | calls hstory hstack ha _ _ _ ih | returns hstory hstack ha _ _ ih
    | faults hstory hstack ha _ _ ih
  | overflows hstory hstack ha _ _ _ ih =>
    exact List.pairwise_cons.mpr ⟨hown hstory hstack ha, ih⟩

end Order

end Construction

theorem contextBefore_cons (m : Moment) (since : List Moment) (c : Context) :
    contextBefore (m :: since) c = contextBefore since m.context := by
  cases since with
  | nil => rfl
  | cons m' since =>
    rw [contextBefore, contextBefore, List.getLast?_cons_cons,
      List.getLast?_eq_some_getLast (List.cons_ne_nil m' since)]
    rfl

/-! ### What a step comes to, by what the innermost activation reports -/

namespace Moment.Moves

variable {m : Moment} {top a d : Activation} {callers : List Activation}
  {progress : Context.Progress}
  {rt rt' : Runtime} {why : Fault} (h : m.Moves top callers progress rt)
include h

theorem of_called (hreport : m.report = .ok (a, .called d) rt') :
    progress = .running (m.context.on (d :: a :: callers)) ∧ rt = rt' ∨
      m.context.maxDepth ≤ callers.length + 1 ∧ rt.objects = rt'.objects ∧ progress =
        .stopped .null { m.context with
          stack := []
          state := .faulted (.stackOverflow m.context.maxDepth) } := by
  cases h with
  | works hr | ends hr | returns hr | defers hr => cases hreport.symm.trans hr
  | calls hr =>
    cases hreport.symm.trans hr
    exact Or.inl ⟨rfl, rfl⟩
  | faults hfaults => cases hfaults with
    | raised hr => cases hreport.symm.trans hr
    | refused hr hdepth =>
      cases hreport.symm.trans hr
      exact Or.inr ⟨hdepth, rfl, rfl⟩

theorem of_returned (hreport : m.report = .ok (a, .returned) rt') :
    progress.context.stack = handed callers a.result := by
  cases h with
  | works hr | defers hr | calls hr => cases hreport.symm.trans hr
  | ends hr hnone =>
    subst hnone
    rfl
  | returns hr hcallers =>
    cases hreport.symm.trans hr
    subst hcallers
    rfl
  | faults hfaults => cases hfaults with
    | raised hr | refused hr => cases hreport.symm.trans hr

theorem of_fault (hreport : m.report = .fault why rt') : rt.objects = rt'.objects ∧
    progress = .stopped .null { m.context with stack := [], state := .faulted why } := by
  cases h with
  | works hr | ends hr | returns hr | defers hr | calls hr => cases hreport.symm.trans hr
  | faults hfaults => cases hfaults with
    | raised hr =>
      cases hreport.symm.trans hr
      exact ⟨rfl, rfl⟩
    | refused hr => cases hreport.symm.trans hr

theorem state_of_report : m.report.state?.isSome := by
  cases h with
  | works hr | ends hr | returns hr | defers hr | calls hr => rw [hr]; rfl
  | faults hfaults => cases hfaults with
    | raised hr | refused hr => rw [hr]; rfl

end Moment.Moves

namespace Construction

variable {object : ObjectRef} {i : Invocation} {callers : List Activation}
  {since past : List Moment} {stage : Stage}
  {m : Moment} {a : Activation} {progress : Context.Progress} {rt : Runtime}

/-- The step of the activation itself. -/
theorem Story.own (h : Story object i callers since (.due stage)) (hcourse : Course past m.context)
    (hunfinished : ¬ m.context.isFinished) (hstep : m.outcome = .ok progress rt)
    (hstack : m.context.stack = a :: callers) (ha : a.AtStage object i stage) :
    Result object i callers (m :: since) progress.context := by
  obtain ⟨top, below, hstack', hmoves⟩ := hcourse.coherent.moves hunfinished hstep
  obtain ⟨rfl, rfl⟩ := List.cons.inj (hstack.symm.trans hstack')
  have hreport := m.report_eq hstack
  rw [ha.fetch, ha.step] at hreport
  cases hmove : stage.move m.fuel object i m.runtime with
  | ok move rt₁ =>
    rw [hmove] at hreport
    cases move with
    | calls p j next =>
      obtain ⟨rfl, rfl⟩ | ⟨hdepth, hobjects, rfl⟩ := hmoves.of_called hreport
      · exact .due (.calls h hstack ha hmove (rank_of_move hmove) hstep) (ha.turned next)
          (Or.inr ⟨_, [], rfl⟩)
      · have hmade : (rt₁.activate p a.context j).2.objects = rt₁.objects := by
          simp only [Runtime.activate]
          split <;> rfl
        exact .faulted (.overflows h hstack ha hmove hdepth ⟨rt, hstep, hobjects.trans hmade⟩)
          rfl rfl
    | returns =>
      have hvalue : m.value? = some (.object object) := by
        rw [Moment.value?, hreport]
        rfl
      show Result object i callers ([] ++ m :: since) _
      exact .returned (.returns h hstack ha hmove hvalue) (hmoves.of_returned hreport)
  | fault why rt₁ =>
    rw [hmove] at hreport
    obtain ⟨hobjects, rfl⟩ := hmoves.of_fault hreport
    exact .faulted (.faults h hstack ha hmove ⟨rt, hstep, hobjects⟩) rfl rfl
  | breach b rt₁ | exhausted =>
    rw [hmove] at hreport
    have hnone := hmoves.state_of_report
    rw [hreport] at hnone
    cases hnone

theorem Story.other (h : Story object i callers since (.due stage))
    (hcourse : Course past m.context)
    (hunfinished : ¬ m.context.isFinished) (hstep : m.outcome = .ok progress rt)
    (ha : a.AtStage object i stage) (habove : Above a callers m.context.stack) :
    Result object i callers (m :: since) progress.context := by
  obtain ⟨top, below, hstack, hmoves⟩ := hcourse.coherent.moves hunfinished hstep
  have hwaits := Story.waits h ha habove
  obtain ⟨b, inner, hbelow⟩ := habove
  obtain ⟨rfl, rfl⟩ := List.cons.inj (hstack.symm.trans hbelow)
  cases hmoves with
  | @works b rt hreport => exact .due hwaits ha (Or.inr ⟨b, inner, rfl⟩)
  | ends hreport hnone => simp at hnone
  | @returns b caller rest rt hreport hcallers =>
    cases inner with
    | nil =>
      obtain ⟨rfl, rfl⟩ := List.cons.inj hcallers
      exact .due hwaits (ha.receive b.result) (Or.inl rfl)
    | cons x inner =>
      obtain ⟨rfl, rfl⟩ := List.cons.inj hcallers
      exact .due hwaits ha (Or.inr ⟨_, inner, rfl⟩)
  | @defers b w rt hreport => exact .due hwaits ha (Or.inr ⟨b, inner, rfl⟩)
  | @calls b d rt hreport hdepth => exact .due hwaits ha (Or.inr ⟨d, b :: inner, rfl⟩)
  | faults hfaults =>
    exact .faulted (.falls h ha ⟨_, inner, hstack⟩ hfaults ⟨_, hstep, rfl⟩) rfl rfl

end Construction

/-- What becomes of a construction, however long it takes. -/
theorem Course.construction {object : ObjectRef} {i : Invocation} {callers : List Activation}
    {a : Activation} {since earlier : List Moment} {c : Context} (h : Course (since ++ earlier) c)
    (hstack : (contextBefore since c).stack = a :: callers) (ha : a.AtStage object i .begun) :
    Result object i callers since c := by
  induction since generalizing c with
  | nil => exact .due .begins ha (Or.inl hstack)
  | cons m since ih =>
    cases h with
    | step hbefore hunfinished hstep =>
      rw [contextBefore_cons] at hstack
      cases ih hbefore hstack with
      | due hstory hb hplace =>
        obtain hown | habove := hplace
        · exact hstory.own hbefore hunfinished hstep hown hb
        · exact hstory.other hbefore hunfinished hstep hb habove
      | @returned after life _ hstory hnext =>
        show Result object i callers (m :: after ++ life) _
        exact .returned hstory (by rwa [contextBefore_cons])
      | faulted _ hstate => simp [Context.isFinished, hstate] at hunfinished

/-! ### Who constructs -/

namespace Runtime

variable {rt : Runtime} {path : String} {d : Definition}

/-- A new object of the type, of which nothing has run. -/
def allocated (rt : Runtime) (d : Definition) : ObjectRef × Runtime :=
  ((rt.objects.allocateOf d).1, { rt with store := { rt.store with
    objects :=
      (rt.objects.allocateOf d).2, deeds :=
        .made (rt.objects.allocateOf d).1 d :: rt.store.deeds } })

theorem allocate_eq (htype : rt.objects.types[path]? = some d) :
    Store.allocate path rt.store = .ok (rt.allocated d).1 (rt.allocated d).2.store := by
  rw [Store.allocate_eq, show rt.store.objects.types[path]? = some d from htype]
  rfl

theorem onStore_allocate (htype : rt.objects.types[path]? = some d) (n : Nat) :
    onStore (Store.serve (n + 1) (.allocate path)) rt =
      .ok (rt.allocated d).1 (rt.allocated d).2 := by
  simp only [onStore, Store.serve, allocate_eq htype]
  rfl

theorem activate_init {object : ObjectRef} {i : Invocation} (hsrc : i.src = some object)
    (rt : Runtime) (c : ContextId) :
    (rt.activate init c i).1.AtStage object i .begun ∧ (rt.activate init c i).2 = rt :=
  ⟨⟨rfl, hsrc, none, rfl⟩, rfl⟩

end Runtime

namespace Moment

variable {m : Moment} {path : String} {argc : UInt64} {top a callee : Activation} {f : ScriptFrame}
  {callers : List Activation} {d : Definition} {rt : Runtime} {why : Fault}

/-- The script on top of `callers` is about to execute the instruction. -/
structure Executes (m : Moment) (i : Instr) (top : Activation) (f : ScriptFrame)
    (callers : List Activation) : Prop where
  stack : m.context.stack = top :: callers
  frame : top.frame = .script f
  started : f.locals.isSome
  code : f.code[f.position]? = some i

theorem Executes.report {i : Instr} {demand : Demand} {f' : ScriptFrame}
    (h : m.Executes i top f callers)
    (hexec : { f with position := f.position + 1 }.exec top.src top.usr i = .ok (demand, f')) :
    m.report = (top.withFrame (.script f')).meet m.fuel demand m.runtime := by
  obtain ⟨slots, hlocals⟩ := Option.isSome_iff_exists.mp h.started
  rw [report_eq h.stack, Evaluator.step_fetch_script h.frame]
  simp only [hlocals, h.code, Act.bind_apply, Act.lift_apply] at hexec ⊢
  rw [hexec]

/-- The script on top of `callers` is about to run an instruction that constructs. -/
structure Asks (m : Moment) (path : String) (argc : UInt64) (top : Activation) (f : ScriptFrame)
    (callers : List Activation) : Prop where
  stack : m.context.stack = top :: callers
  frame : top.frame = .script f
  started : f.locals.isSome
  code : f.code[f.position]? = some (.new path argc)
  operands : argc.toNat ≤ f.operands.length

/-- The script that has asked, and what it passes. -/
def asking (top : Activation) (f : ScriptFrame) (argc : UInt64) : Activation :=
  top.withFrame
    (.script { f with position := f.position + 1, operands := f.operands.drop argc.toNat })

def passed (object : ObjectRef) (top : Activation) (f : ScriptFrame) (argc : UInt64) :
    Invocation where
  src := some object
  usr := top.usr
  arguments := { positional := (f.operands.take argc.toNat).reverse }

theorem Asks.report (h : m.Asks path argc top f callers)
    (htype : m.runtime.objects.types[path]? = some d) {n : Nat} (hfuel : m.fuel = n + 1) :
    m.report = .ok (asking top f argc, .called ((m.runtime.allocated d).2.activate
      Runtime.init top.context (passed (m.runtime.allocated d).1 top f argc)).1)
        (m.runtime.allocated d).2 := by
  have hexec : { f with position := f.position + 1 }.exec top.src top.usr (.new path argc) =
      .ok (.construct path (f.operands.take argc.toNat).reverse, { f with
        position := f.position + 1, operands := f.operands.drop argc.toNat }) := by
    simp only [ScriptFrame.exec, ScriptFrame.popArguments, if_neg (Nat.not_lt.mpr h.operands)]
    rfl
  rw [Executes.report ⟨h.stack, h.frame, h.started, h.code⟩ hexec, hfuel]
  simp only [Activation.meet, Act.bind_apply, Runtime.onStore_allocate htype]
  rfl

theorem outcome_of_called (hstack : m.context.stack = top :: callers)
    (hown : callee.context = m.context.id) (hreport : m.report = .ok (a, .called callee) rt) :
    if callers.length + 1 < m.context.maxDepth then
      m.outcome = .ok (.running (m.context.on (callee :: a :: callers))) rt
    else m.EndsWith (.stackOverflow m.context.maxDepth) rt := by
  have houtcome : m.outcome = m.context.proceed a callers (.called callee) rt := by
    rw [report_eq hstack] at hreport
    simp only [outcome, Context.step, hstack, hreport]
  simp only [Context.proceed, Context.push, hown, ne_eq, not_true_eq_false, if_false,
    List.length_cons] at houtcome
  by_cases hdepth : callers.length + 1 < m.context.maxDepth
  · rw [if_neg (Nat.not_le.mpr hdepth)] at houtcome
    rw [if_pos hdepth]
    exact houtcome
  · rw [if_pos (Nat.not_lt.mp hdepth)] at houtcome
    rw [if_neg hdepth]
    exact ⟨_, houtcome, rfl⟩

theorem outcome_of_fault (hstack : m.context.stack = top :: callers)
    (hreport : m.report = .fault why rt) :
    m.EndsWith why rt := by
  refine ⟨(rt.abort { m.context with stack := top.fetch.2 :: callers } why).2, ?_, rfl⟩
  rw [report_eq hstack] at hreport
  simp only [outcome, Context.step, hstack, hreport]
  rfl

end Moment

theorem Course.run {n : Nat} {past : List Moment} {c c' : Context} {rt rt' : Runtime} {v : Value}
    (h : Course past c) (hunfinished : ¬ c.isFinished) (hrun : c.run n rt = .ok (v, c') rt') :
    ∃ since, Course (since ++ past) c' ∧ contextBefore since c' = c := by
  induction n generalizing past c rt with
  | zero => cases hrun
  | succ n ih =>
    let m : Moment := ⟨c, n, rt⟩
    obtain hstop | ⟨c₁, rt₁, hstep, hrun⟩ := Context.run_ok hrun
    · exact ⟨[m], .step (m := m) h hunfinished hstop, rfl⟩
    · have houtcome : m.outcome = .ok (.running c₁) rt₁ := hstep
      obtain ⟨since, hcourse, _⟩ :=
        ih (.step h hunfinished houtcome) (Context.unfinished_of_running hunfinished hstep) hrun
      refine ⟨since ++ [m], ?_, ?_⟩
      · rw [List.append_assoc]
        exact hcourse
      · rw [contextBefore, List.getLast?_concat]
        rfl

namespace Runtime

variable {rt : Runtime} {path : String} {d : Definition}

/-- The context in which an object is constructed from outside. -/
def constructing (rt : Runtime) (object : ObjectRef) (arguments : Arguments)
    (usr : Option ObjectRef) :
    Context × Runtime :=
  rt.opened init { src := some object, usr, arguments }

theorem constructing_stack (rt : Runtime) (object : ObjectRef) (arguments : Arguments)
    (usr : Option ObjectRef) :
    ∃ a : Activation, (rt.constructing object arguments usr).1.stack = [a] ∧
      a.AtStage object { src := some object, usr, arguments } .begun :=
  ⟨_, rfl, (activate_init rfl _ _).1⟩

theorem newObject_eq (htype : rt.objects.types[path]? = some d) (n : Nat) (arguments : Arguments)
    (usr : Option ObjectRef) : newObject (n + 1) path arguments usr rt =
      let (object, made) := rt.allocated d
      if rt.maxDepth = 0 then .ok object (made.refused init { src := some object, usr, arguments })
      else match (made.constructing object arguments usr).1.run (n + 1)
        (made.constructing object arguments usr).2 with
        | .ok (_, c) rt' => .ok object (rt'.leave c)
        | .fault e rt' => .fault e rt'
        | .breach b rt' => .breach b rt'
        | .exhausted => .exhausted := by
  simp only [newObject, constructWith, Act.bind_apply, onStore_allocate htype, callWith_eq]
  have hdepth : (rt.allocated d).2.maxDepth = rt.maxDepth := rfl
  have hunfinished :
      ¬ ((rt.allocated d).2.constructing (rt.allocated d).1 arguments usr).1.isFinished :=
    Bool.false_ne_true
  by_cases hzero : rt.maxDepth = 0
  · rw [if_pos hzero, if_pos (hdepth.trans hzero)]
    rfl
  · rw [if_neg hzero, if_neg (fun h => hzero (hdepth.symm.trans h)), ← constructing,
      Context.resume_eq_run hunfinished]
    cases ((rt.allocated d).2.constructing (rt.allocated d).1 arguments usr).1.run (n + 1)
      ((rt.allocated d).2.constructing (rt.allocated d).1 arguments usr).2 <;> rfl

end Runtime

/-- What it comes to that an object is constructed which is one of a type: `made` is the runtime
when it has been allocated in `rt`. -/
structure Constructs (rt : Runtime) (path : String) (d : Definition) (object : ObjectRef)
    (made : Runtime) : Prop where
  /-- The object is there before anything of its construction runs. -/
  allocated : made.objects.get? object = some { definition := d }
  /-- Whoever looks up its type later finds that one, unless the object is gone. -/
  typed : ∀ s : Store, made.store.Passes s → s.Roomy →
    s.objects.definition object = .ok d ∨ s.objects.definition object =
      .error (.deletedObject object)
  /-- A script that asks for it calls the routine, which is to pass its user and its arguments
  on. -/
  script :
    ∀ (past : List Moment) (m : Moment) (top : Activation) (f : ScriptFrame)
      (callers : List Activation)
    (argc : UInt64) (n : Nat), Course past m.context → m.runtime = rt → m.fuel = n + 1 →
    m.Asks path argc top f callers →
      ∃ a : Activation, a.AtStage object (Moment.passed object top f argc) .begun ∧
      if callers.length + 1 < m.context.maxDepth then
        m.outcome = .ok (.running (m.context.on (a :: Moment.asking top f argc :: callers))) made
      else m.EndsWith (.stackOverflow m.context.maxDepth) made
  /-- Whoever asks for it from outside gets it as soon as the routine stops, whatever it stops
  with. -/
  outside : ∀ (n : Nat) (arguments : Arguments) (usr : Option ObjectRef),
    Runtime.newObject (n + 1) path arguments usr rt =
      if rt.maxDepth = 0 then
        .ok object (made.refused Runtime.init { src := some object, usr, arguments })
      else match (made.constructing object arguments usr).1.run (n + 1)
        (made.constructing object arguments usr).2 with
        | .ok (_, c) rt' => .ok object (rt'.leave c)
        | .fault e rt' => .fault e rt'
        | .breach b rt' => .breach b rt'
        | .exhausted => .exhausted
  opened : ∀ (arguments : Arguments) (usr : Option ObjectRef), rt.maxDepth ≠ 0 →
    Course [] (made.constructing object arguments usr).1 ∧
      ∃ a : Activation, (made.constructing object arguments usr).1.stack = [a] ∧
        a.AtStage object { src := some object, usr, arguments } .begun
  run :
    ∀ (n : Nat) (arguments : Arguments) (usr : Option ObjectRef) (v : Value) (c : Context)
      (rt' : Runtime),
    rt.maxDepth ≠ 0 →
    (made.constructing object arguments usr).1.run n (made.constructing object arguments usr).2 =
      .ok (v, c) rt' →
    ∃ since, Course since c ∧ Result object { src := some object, usr, arguments } [] since c
  /-- However long it takes, the construction goes on from the stage at which nothing has been
  done. -/
  life :
    ∀ (since earlier : List Moment) (c : Context) (a : Activation) (i : Invocation)
      (callers : List Activation),
    Course (since ++ earlier) c → (contextBefore since c).stack = a :: callers →
      a.AtStage object i .begun →
    Result object i callers since c
  /-- Each stage comes once at most, and after those before it. -/
  order :
    ∀ (i : Invocation) (callers : List Activation) (since : List Moment) (standing : Standing),
    Story object i callers since standing →
    since.Pairwise fun m m' => ∀ stage stage', IsDue object i callers m stage →
      IsDue object i callers m' stage' →
      stage'.rank < stage.rank
  /-- When the hook has run nothing is left but the constructor. -/
  concluded : ∀ (fuel : Nat) (i j : Invocation) (p : ProcRef) (next : Stage) (rt₁ rt₂ : Runtime),
    conclude fuel object i rt₁ = .ok (.calls p j next) rt₂ → next = .constructed
  /-- Where the type is looked up the object has to be there still. -/
  deleted : ∀ (fuel : Nat) (i : Invocation) (rt' : Runtime) (stage : Stage),
    ¬ rt'.objects.isAlive object →
    stage ≠ .constructed → stage.move fuel object i rt' = .fault (.deletedObject object) rt'
  deleted_by_hook : ∀ (fuel : Nat) (i : Invocation) (rt₁ rt₂ : Runtime), consult fuel object i rt₁ =
    .ok true rt₂ →
    ¬ rt₂.objects.isAlive object → conclude fuel object i rt₁ = .fault (.deletedObject object) rt₂

/-- The stages of a construction come in their order and once at most, whoever asks for it, whatever
they call and however often that defers. -/
theorem construction_goes_by_stages {rt : Runtime} {path : String} {d : Definition}
    (hstore : Store.Passes {} rt.store) (htype : rt.objects.types[path]? = some d) :
    Constructs rt path d (rt.allocated d).1 (rt.allocated d).2 where
  allocated := by
    show (rt.objects.allocateOf d).2.get? (rt.objects.allocateOf d).1 = _
    rw [rt.objects.get?_allocateOf d hstore.inside.free, if_pos rfl]
  typed s hpasses hroomy := by
    have hturn : rt.store.Passes (rt.allocated d).2.store :=
      .single (.allocated (Runtime.allocate_eq htype))
    have hall : Store.Passes {} s := Trans.trans (Trans.trans hstore hturn) hpasses
    have horderly : s.Orderly := hall.orderly hroomy .empty
    exact horderly.definition hpasses.deeds
  script := by
    rintro past m top f callers argc n hcourse rfl hfuel hasks
    have hown : top.context = m.context.id :=
      hcourse.coherent.own top (by rw [hasks.stack]; exact List.mem_cons_self)
    exact ⟨_, (Runtime.activate_init rfl _ _).1,
      Moment.outcome_of_called hasks.stack hown (hasks.report htype hfuel)⟩
  outside n arguments usr := Runtime.newObject_eq htype n arguments usr
  opened arguments usr hdepth :=
    ⟨.opened _ _ _ hdepth, Runtime.constructing_stack _ _ arguments usr⟩
  run n arguments usr v c rt' hdepth hrun := by
    have hopened : Course [] ((rt.allocated d).2.constructing (rt.allocated d).1 arguments usr).1 :=
      .opened _ _ _ hdepth
    obtain ⟨since, hcourse, hbefore⟩ := hopened.run Bool.false_ne_true hrun
    obtain ⟨a, hstack, ha⟩ := (rt.allocated d).2.constructing_stack (rt.allocated d).1 arguments usr
    exact ⟨since, List.append_nil since ▸ hcourse, hcourse.construction (hbefore ▸ hstack) ha⟩
  life since earlier c a i callers hcourse hstack ha := hcourse.construction hstack ha
  order i callers since standing hstory := hstory.ordered
  concluded fuel i j p next rt₁ rt₂ h := conclude_calls h
  deleted fuel i rt' stage hgone hstage := move_deleted hgone hstage
  deleted_by_hook fuel i rt₁ rt₂ hconsult hgone := conclude_deleted_by_hook hconsult hgone

theorem both_procs_are_called :
    let initializer : ProcRef := ⟨1, "(initializer)"⟩
    let constructor : ProcRef := ⟨2, "New"⟩
    let mob : Definition :=
      ⟨"/mob", none, ∅, (∅ : Names ProcRef).insert "New" constructor, some initializer, none⟩
    let rt : Runtime := { store := { objects := ObjectTable.register {} mob } }
    let object : ObjectRef := ⟨0, 0⟩
    let made := (rt.allocated mob).2
    let i : Invocation :=
      { src := some object, usr := some object, arguments := { positional := [.int 7] } }
    Constructs rt "/mob" mob object made ∧
      Stage.begun.move 1 object i made =
        .ok (.calls initializer { src := some object } .initialized) made ∧
      Stage.initialized.move 1 object i made = .ok (.calls constructor i .constructed) made ∧
      Stage.constructed.move 1 object i made = .ok .returns made := by
  intro initializer constructor mob rt object made i
  have htype : rt.objects.types["/mob"]? = some mob := Std.ExtTreeMap.getElem?_insert_self
  exact ⟨construction_goes_by_stages (.single (.registered mob)) htype, rfl, rfl, rfl⟩

end ProcEngine
