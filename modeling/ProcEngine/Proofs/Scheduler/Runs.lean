import ProcEngine.Proofs.Scheduler.Turns
/-!
# Runs of operations

A host uses a runtime and a scheduler by the operations below, in any order. What an operation comes
to is an episode: its answer, the tick counter, and what became of contexts meanwhile.
`Host.InOrder` holds of a host that has done nothing, and every operation keeps it.
-/

namespace ProcEngine

open Chronicle

inductive Operation
  | run (p : ProcRef) (i : Invocation)
  | callOn (o : ObjectRef) (name : String) (arguments : Arguments) (usr : Option ObjectRef)
  | newObject (path : String) (arguments : Arguments) (usr : Option ObjectRef)
  | spawn (p : ProcRef) (i : Invocation)
  | callAsync (p : ProcRef) (i : Invocation) (completion : Option Completion)
  | wake (c : ContextId)
  | tick

inductive Answer
  | value (v : Value)
  | object (o : ObjectRef)
  | context (c : ContextId)
  | woken (b : Bool)
  | resumed (n : Nat)

def Operation.act (fuel : Nat) (s : Scheduler) : Operation → Act Runtime (Answer × Scheduler)
  | .run p i => do return (.value (← Runtime.call fuel p i), s)
  | .callOn o name arguments usr =>
    do return (.value (← Runtime.callOn fuel o name arguments usr), s)
  | .newObject path arguments usr =>
    do return (.object (← Runtime.newObject fuel path arguments usr), s)
  | .spawn p i => do
    let (c, s) ← s.spawn fuel p i
    return (.context c, s)
  | .callAsync p i completion => do
    let (c, s) ← s.callAsync fuel p i completion
    return (.context c, s)
  | .wake c => do
    let (b, s) ← s.wake fuel c
    return (.woken b, s)
  | .tick => do
    let (n, s) ← s.advance fuel
    return (.resumed n, s)

structure Host where
  runtime : Runtime
  scheduler : Scheduler := {}

/-- What an operation came to. -/
structure Episode where
  operation : Operation
  answer : Except Fault Answer
  /-- The tick counter when the operation is over. -/
  tick : UInt64
  /-- What became of contexts meanwhile, the earliest first. -/
  deeds : List Milestone

namespace Host

/-- Nothing has been done yet. Whatever may have been defined. -/
structure IsFresh (h : Host) : Prop where
  scheduler : h.scheduler = {}
  detached : h.runtime.detached = #[]
  chronicle : h.runtime.chronicle = []

def episode (h : Host) (op : Operation) (answer : Except Fault Answer) (h' : Host) : Episode where
  operation := op
  answer := answer
  tick := h'.scheduler.tick
  deeds :=
    (h'.runtime.chronicle.take (h'.runtime.chronicle.length - h.runtime.chronicle.length)).reverse

/-- Performs an operation, if it comes to an end. -/
def perform (fuel : Nat) (h : Host) (op : Operation) : Option (Episode × Host) :=
  match op.act fuel h.scheduler h.runtime with
  | .ok (answer, s) rt => some (h.episode op (.ok answer) ⟨rt, s⟩, ⟨rt, s⟩)
  | .fault e rt => some (h.episode op (.error e) ⟨rt, h.scheduler⟩, ⟨rt, h.scheduler⟩)
  | .breach .. | .exhausted => none

/-- Operations, one after the other. -/
inductive Runs : Host → List Episode → Host → Prop
  | nil (h : Host) : Runs h [] h
  | cons {fuel : Nat} {h h' h'' : Host} {op : Operation} {e : Episode} {episodes : List Episode} :
    h.perform fuel op = some (e, h') → Runs h' episodes h'' → Runs h (e :: episodes) h''

/-! ### What operations keep -/

structure InOrder (h : Host) : Prop where
  books : Books [] h.scheduler h.runtime
  calm : Calm h.runtime.chronicle
  shallow : h.runtime.maxDepth = 0 → h.runtime.detached = #[]

theorem IsFresh.inOrder {h : Host} (hfresh : h.IsFresh) : h.InOrder where
  books := by
    rw [Books, hfresh.scheduler, hfresh.detached, hfresh.chronicle]
    exact Ledger.start h.runtime.contexts
  calm := by
    rw [hfresh.chronicle]
    intro id w hw
    cases hw
  shallow _ := hfresh.detached

end Host

def Operation.isTick : Operation → Bool
  | .tick => true
  | _ => false

/-- Whether nobody is left adrift. -/
def Episode.settles (e : Episode) : Bool :=
  match e.operation, e.answer with
  | .spawn .., _ | .callAsync .., _ | .tick, _ => true
  | .wake _, .ok (.woken b) => b
  | _, _ => false

/-- The context that an episode has started on its own. -/
def Episode.started? (e : Episode) : Option ContextId :=
  match e.operation, e.answer with
  | .spawn .., .ok (.context c) | .callAsync .., .ok (.context c) => some c
  | _, _ => none

namespace Host

/-- What an episode leaves behind. -/
structure Passes (h : Host) (e : Episode) (h' : Host) : Prop where
  inOrder : h'.InOrder
  tick : h'.scheduler.tick = e.tick
  chronicle : h'.runtime.chronicle = e.deeds.reverse ++ h.runtime.chronicle
  settled : e.settles → h'.runtime.detached = #[]
  drained : e.operation.isTick → ∀ s ∈ h'.scheduler.sleepers, h'.scheduler.tick < s.wakeAt
  still : e.operation.isTick = false → Still e.deeds.reverse
  turns : e.operation.isTick → ∃ log filings, e.deeds.reverse = log ++ .ticked e.tick :: filings ∧
    Turns (.ticked e.tick :: (filings ++ h.runtime.chronicle)) log ∧ (∀ m ∈ filings, m.IsFiling) ∧
    e.answer = .ok (.resumed (log.countP Milestone.isResumption))

variable {h h' h'' : Host}

theorem deeds_eq {log : List Milestone} (hlog : h'.runtime.chronicle = log ++ h.runtime.chronicle)
    (op : Operation)
    (answer : Except Fault Answer) : (h.episode op answer h').deeds = log.reverse := by
  have hlength : h'.runtime.chronicle.length - h.runtime.chronicle.length = log.length := by
    rw [hlog, List.length_append]
    omega
  rw [episode, hlength, hlog, List.take_left']
  rfl

variable {fuel : Nat} {op : Operation} {answer : Except Fault Answer} {e : Episode}

/-- What does not move time on passes if it keeps the books. -/
theorem passes_of_still (hin : h.InOrder) (hbooks : Books [] h'.scheduler h'.runtime)
    (hdepth : h'.runtime.maxDepth = h.runtime.maxDepth)
    (hshallow : h.runtime.maxDepth = 0 → h'.runtime.detached = #[]) (log : List Milestone)
    (hlog : h'.runtime.chronicle = log ++ h.runtime.chronicle) (hstill : Still log)
    (htick : op.isTick = false)
    (hsettled : (h.episode op answer h').settles → h'.runtime.detached = #[]) :
    h.Passes (h.episode op answer h') h' := by
  have hdeeds : (h.episode op answer h').deeds.reverse = log := by
    rw [deeds_eq hlog, List.reverse_reverse]
  exact {
    inOrder := {
      books := hbooks
      calm := by
        rw [hlog]
        exact hin.calm.append hstill
      shallow := fun hzero => hshallow (hdepth ▸ hzero) }
    tick := rfl
    chronicle := by rw [hdeeds, hlog]
    settled := hsettled
    drained := fun h => absurd (htick.symm.trans h) (by simp)
    still := fun _ => by
      rw [hdeeds]
      exact hstill
    turns := fun h => by
      have h : op.isTick := h
      rw [htick] at h
      cases h }

theorem passes_of_keeps (hin : h.InOrder) {rt : Runtime} (hkeeps : Keeps h.runtime rt)
    (htick : op.isTick = false)
    (hsettles : (h.episode op answer ⟨rt, h.scheduler⟩).settles = false) :
    h.Passes (h.episode op answer ⟨rt, h.scheduler⟩) ⟨rt, h.scheduler⟩ := by
  obtain ⟨log, hlog, hrun⟩ := hkeeps.adds
  have hstill := Still.of_quiet fun m hm => (hrun m hm).isQuiet
  refine passes_of_still hin (hkeeps.books [] _ hin.books) hkeeps.depth ?_ log hlog hstill htick ?_
  · intro hzero
    exact (hkeeps.shallow hzero).trans (hin.shallow hzero)
  · intro h
    rw [hsettles] at h
    cases h

theorem passes_of_settles (hin : h.InOrder) {s : Scheduler} {rt₀ rt : Runtime}
    (hsettles : Scheduler.Settles [] h.scheduler rt₀ s rt) (log : List Milestone)
    (hlog : rt₀.chronicle = log ++ h.runtime.chronicle)
    (hstill : Still log) (hdepth : rt₀.maxDepth = h.runtime.maxDepth) (htick : op.isTick = false) :
    h.Passes (h.episode op answer ⟨rt, s⟩) ⟨rt, s⟩ := by
  obtain ⟨log', hlog', hquiet⟩ := hsettles.quiet.adds
  have hstill' := Still.of_quiet hquiet
  refine passes_of_still hin hsettles.books (hsettles.quiet.depth.trans hdepth)
    (fun _ => hsettles.settled)
    (log' ++ log) ?_ ?_ htick fun _ => hsettles.settled
  · rw [hlog', hlog, List.append_assoc]
  · intro t ht
    exact (List.mem_append.mp ht).elim (hstill' t) (hstill t)

theorem passes_of_ticks {n : Nat} {s : Scheduler} {rt : Runtime}
    (hticks : Scheduler.Ticks h.scheduler h.runtime n s rt) :
    h.Passes (h.episode .tick (.ok (.resumed n)) ⟨rt, s⟩) ⟨rt, s⟩ := by
  obtain ⟨log, filings, hlog, hturns, hfilings, hcount⟩ := hticks.turns
  have hdeeds : (h.episode .tick (.ok (.resumed n)) ⟨rt, s⟩).deeds.reverse =
      log ++ .ticked (h.scheduler.tick + 1) :: filings := by
    have hlog : (⟨rt, s⟩ : Host).runtime.chronicle =
        (log ++ .ticked (h.scheduler.tick + 1) :: filings) ++ h.runtime.chronicle := by
      rw [List.append_assoc]
      exact hlog
    rw [deeds_eq hlog, List.reverse_reverse]
  have htick : (h.episode .tick (.ok (.resumed n)) ⟨rt, s⟩).tick = h.scheduler.tick + 1 :=
    hticks.tick
  exact {
    inOrder := ⟨hticks.books, hticks.calm, fun _ => hticks.settled⟩
    tick := rfl
    chronicle := by
      rw [hdeeds, List.append_assoc]
      exact hlog
    settled := fun _ => hticks.settled
    drained := fun _ => hticks.drained
    still := fun h => by cases h
    turns := fun _ => by
      refine ⟨log, filings, ?_, ?_, hfilings, ?_⟩
      · rw [htick, hdeeds]
      · rw [htick]
        exact hturns
      · rw [hcount]
        rfl }

theorem operation_of_perform (hperform : h.perform fuel op = some (e, h')) : e.operation = op := by
  simp only [perform] at hperform
  split at hperform <;> cases hperform <;> rfl

/-- What holds after an operation, if it holds whatever the operation gives. -/
theorem of_gives {Q : Episode → Host → Prop}
    (hgives : (op.act fuel h.scheduler h.runtime).Gives fun q rt =>
      Q (h.episode op (.ok q.1) ⟨rt, q.2⟩) ⟨rt, q.2⟩)
    (hperform : h.perform fuel op = some (e, h')) : Q e h' := by
  simp only [perform] at hperform
  cases hrun : op.act fuel h.scheduler h.runtime with
  | ok q rt =>
    rw [hrun] at hperform hgives
    cases hperform
    exact hgives
  | fault why rt =>
    rw [hrun] at hgives
    exact hgives.elim
  | breach b rt =>
    rw [hrun] at hperform
    cases hperform
  | exhausted =>
    rw [hrun] at hperform
    cases hperform

/-- What holds after an operation that leaves the scheduler alone, if it holds whatever the runtime
comes to. -/
theorem of_preserves {α : Type} {R : Runtime → Runtime → Prop} {Q : Episode → Host → Prop}
    {x : Act Runtime α} (hx : Act.Preserves R x) (f : α → Answer)
    (hact : op.act fuel h.scheduler = x >>= fun a => Pure.pure (f a, h.scheduler))
    (hleft : ∀ answer rt, R h.runtime rt → Q (h.episode op answer ⟨rt, h.scheduler⟩)
      ⟨rt, h.scheduler⟩)
    (hperform : h.perform fuel op = some (e, h')) : Q e h' := by
  have hran := hx h.runtime
  simp only [perform, hact, Act.bind_apply] at hperform
  cases hrun : x h.runtime with
  | ok a rt =>
    rw [hrun] at hperform hran
    cases hperform
    exact hleft _ rt (hran rt rfl)
  | fault why rt =>
    rw [hrun] at hperform hran
    cases hperform
    exact hleft _ rt (hran rt rfl)
  | breach b rt =>
    rw [hrun] at hperform
    cases hperform
  | exhausted =>
    rw [hrun] at hperform
    cases hperform

/-- What holds after an operation that starts a context, if it holds whatever that gives. -/
theorem of_start {Q : Episode → Host → Prop} {p : ProcRef} {i : Invocation}
    {completion : Option Completion} (hact : op.act fuel h.scheduler =
      h.scheduler.callAsync fuel p i completion >>= fun q => Pure.pure (.context q.1, q.2))
    (hgives : (h.scheduler.callAsync fuel p i completion h.runtime).Gives fun q rt =>
      Q (h.episode op (.ok (.context q.1)) ⟨rt, q.2⟩) ⟨rt, q.2⟩)
    (hperform : h.perform fuel op = some (e, h')) : Q e h' := by
  refine of_gives ?_ hperform
  rw [hact]
  exact Act.gives_bind hgives fun q rt hq => hq

theorem passes_of_keeping {α : Type} (hin : h.InOrder) {x : Act Runtime α} (hx : Keeping x)
    (f : α → Answer) (hact : op.act fuel h.scheduler = x >>= fun a => Pure.pure (f a, h.scheduler))
    (htick : op.isTick = false) (hsettles : ∀ answer h', (h.episode op answer h').settles = false)
    (hperform : h.perform fuel op = some (e, h')) : h.Passes e h' :=
  of_preserves hx f hact (fun _ _ hkeeps => passes_of_keeps hin hkeeps htick (hsettles _ _))
    hperform

theorem passes_of_start (hin : h.InOrder) (p : ProcRef) (i : Invocation)
    (completion : Option Completion) (hact : op.act fuel h.scheduler =
      h.scheduler.callAsync fuel p i completion >>= fun q => Pure.pure (.context q.1, q.2))
    (htick : op.isTick = false) (hperform : h.perform fuel op = some (e, h')) : h.Passes e h' := by
  refine of_start hact ?_ hperform
  refine (Scheduler.callAsync_gives fuel p i completion hin.books hin.shallow).mono
    fun q rt hsettles => ?_
  exact passes_of_settles hin hsettles [] rfl (by simp [Still]) rfl htick

theorem passes (hin : h.InOrder) (hperform : h.perform fuel op = some (e, h')) : h.Passes e h' := by
  cases op with
  | run p i =>
    exact passes_of_keeping hin (Keeping.call fuel p i) _ rfl rfl (fun _ _ => rfl) hperform
  | callOn o name arguments usr =>
    exact passes_of_keeping hin (Keeping.callOn fuel o name arguments usr) _ rfl rfl (fun _ _ =>
      rfl) hperform
  | newObject path arguments usr =>
    exact passes_of_keeping hin (Keeping.newObject fuel path arguments usr) _ rfl rfl (fun _ _ =>
      rfl) hperform
  | spawn p i => exact passes_of_start hin p i none rfl rfl hperform
  | callAsync p i completion => exact passes_of_start hin p i completion rfl rfl hperform
  | wake c =>
    refine of_gives (Act.gives_bind (Scheduler.wake_gives fuel c hin.books) fun q rt hq => ?_)
      hperform
    obtain ⟨rfl, rfl⟩ | ⟨_, hsettles⟩ := hq
    · exact passes_of_keeps hin (Keeps.refl h.runtime) rfl rfl
    · exact passes_of_settles hin hsettles [.resumed c] rfl (by simp [Still]) rfl rfl
  | tick =>
    have hadvances := Scheduler.advance_gives fuel hin.books hin.calm
    refine of_gives (Act.gives_bind hadvances fun q rt hticks => ?_) hperform
    exact passes_of_ticks hticks

/-! ### Runs -/

variable {episodes later : List Episode}

theorem Runs.passes (hin : h.InOrder) (hruns : Runs h (e :: episodes) h'') :
    ∃ h', h.Passes e h' ∧ Runs h' episodes h'' := by
  cases hruns with
  | cons hperform hrest => exact ⟨_, Host.passes hin hperform, hrest⟩

theorem Runs.inOrder (hin : h.InOrder) (hruns : Runs h episodes h') : h'.InOrder := by
  induction hruns with
  | nil h => exact hin
  | cons hperform _ ih => exact ih (Host.passes hin hperform).inOrder

theorem Runs.chronicle (hin : h.InOrder) (hruns : Runs h episodes h') :
    h'.runtime.chronicle = (episodes.flatMap Episode.deeds).reverse ++ h.runtime.chronicle := by
  induction hruns with
  | nil h => rfl
  | cons hperform _ ih =>
    have hpasses := Host.passes hin hperform
    rw [ih hpasses.inOrder, hpasses.chronicle, List.flatMap_cons, List.reverse_append,
      List.append_assoc]

theorem Runs.split (hruns : Runs h (episodes ++ later) h'') : ∃ h', Runs h episodes h' ∧
    Runs h' later h'' := by
  induction episodes generalizing h with
  | nil => exact ⟨h, Runs.nil h, hruns⟩
  | cons e episodes ih =>
    cases hruns with
    | cons hperform hrest =>
      obtain ⟨h', hbefore, hafter⟩ := ih hrest
      exact ⟨h', Runs.cons hperform hbefore, hafter⟩

/-- Performs operations, one after the other, if all of them come to an end. -/
def performAll (fuel : Nat) (h : Host) : List Operation → Option (List Episode × Host)
  | [] => some ([], h)
  | op :: ops =>
    match h.perform fuel op with
    | some (e, h) => (h.performAll fuel ops).map fun q => (e :: q.1, q.2)
    | none => none

theorem runs_of_performAll {ops : List Operation}
    (hperform : h.performAll fuel ops = some (episodes, h')) :
    Runs h episodes h' := by
  induction ops generalizing h episodes with
  | nil =>
    cases hperform
    exact Runs.nil _
  | cons op ops ih =>
    simp only [performAll] at hperform
    cases hfirst : h.perform fuel op with
    | none => simp [hfirst] at hperform
    | some q =>
      rw [hfirst] at hperform
      obtain ⟨⟨rest, h₁⟩, hrest, heq⟩ := Option.map_eq_some_iff.mp hperform
      cases heq
      exact Runs.cons hfirst (ih hrest)

theorem operations_of_performAll {ops : List Operation}
    (hperform : h.performAll fuel ops = some (episodes, h')) :
    episodes.map Episode.operation = ops := by
  induction ops generalizing h episodes with
  | nil =>
    cases hperform
    rfl
  | cons op ops ih =>
    simp only [performAll] at hperform
    cases hfirst : h.perform fuel op with
    | none => simp [hfirst] at hperform
    | some q =>
      rw [hfirst] at hperform
      obtain ⟨⟨rest, h₁⟩, hrest, heq⟩ := Option.map_eq_some_iff.mp hperform
      cases heq
      rw [List.map_cons, operation_of_perform hfirst, ih hrest]

/-- A host with a proc that sleeps for one tick. -/
def napping : Host where
  runtime := {
    procs := #[{
      signature := { name := "nap" }
      body := .routine false fun _ _ => .ask (.sleep 1) fun _ => .done .null }] }

end Host

end ProcEngine
