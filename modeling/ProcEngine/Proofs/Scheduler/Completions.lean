import ProcEngine.Proofs.Scheduler.Tending
/-!
# Completions are run once

The completion of a context stays with it, in the map of the parked, until the context finishes. It
is run then, in the same operation and with the value that the context finishes with, and never
again.
-/

namespace ProcEngine

open Chronicle

/-! ### Completions in a chronicle -/

namespace Chronicle

variable {id : ContextId} {v : Value} {log later : List Milestone}

theorem finished_of_completed (h : Lawful (later ++ .completed id v :: log)) :
    ∃ s earlier, log = .stopped id s :: earlier ∧ (s = .returned ∨ ∃ why, s = .faulted why) := by
  obtain ⟨s, hhead, hs⟩ := h.of_append.2
  obtain ⟨earlier, rfl⟩ := List.head?_eq_some_iff.mp hhead
  exact ⟨s, earlier, rfl, hs⟩

theorem finished_before_completed {pre post : List Milestone}
    (h : Lawful (pre ++ .completed id v :: post).reverse) : Finished id pre := by
  rw [List.reverse_append, List.reverse_cons, List.append_assoc, List.singleton_append] at h
  obtain ⟨s, earlier, heq, hs⟩ := finished_of_completed h
  have hmem : .stopped id s ∈ pre := by
    rw [← List.mem_reverse, heq]
    exact List.mem_cons_self
  obtain rfl | ⟨why, rfl⟩ := hs
  · exact Or.inl hmem
  · exact Or.inr ⟨why, hmem⟩

theorem not_finished_before {s s' : ContextState} (h : Lawful (.stopped id s :: log))
    (hs' : s' = .returned ∨ ∃ why, s' = .faulted why) : .stopped id s' ∉ log := fun hm =>
  absurd (h.2.1.symm.trans (standing_of_finished hs' h.1 hm)) (by simp)

theorem completed_once (h : Lawful (later ++ .completed id v :: log)) (v' : Value) :
    .completed id v' ∉ later ∧ .completed id v' ∉ log := by
  obtain ⟨s, earlier, rfl, hs⟩ := finished_of_completed h
  constructor
  · intro hm
    obtain ⟨since, before, rfl⟩ := List.append_of_mem hm
    rw [List.append_assoc, List.cons_append] at h
    obtain ⟨s', earlier', heq, hs'⟩ := finished_of_completed h
    cases before with
    | nil => cases heq
    | cons m before =>
      obtain ⟨rfl, rfl⟩ := List.cons.inj heq
      exact not_finished_before h.of_append.1 hs (by simp)
  · intro hm
    obtain hm := (List.mem_cons.mp hm).resolve_left (by simp)
    obtain ⟨since, before, rfl⟩ := List.append_of_mem hm
    have hstopped : Lawful (.stopped id s :: (since ++ .completed id v' :: before)) := h.of_append.1
    obtain ⟨s', earlier', rfl, hs'⟩ := finished_of_completed hstopped.1
    exact not_finished_before hstopped hs' (by simp)

end Chronicle

/-! ### The outermost activation -/

/-- Whatever is outermost on the stack is an activation of `p`, called by `i`. -/
def Context.Roots (c : Context) (p : ProcRef) (i : Invocation) : Prop :=
  ∀ o, (c.stack.map Activation.origin).getLast? = some o → o.2.1 = p ∧ o.2.2.2 = i

theorem Context.roots_opened (rt : Runtime) (p : ProcRef) (i : Invocation) :
    (rt.opened p i).1.Roots p i := by
  intro o ho
  cases ho
  exact ⟨rfl, rfl⟩

namespace Course

variable {past later : List Moment} {m : Moment} {c : Context} {p : ProcRef} {i : Invocation}

theorem roots_step (h : Course past m.context) (hunfinished : ¬ m.context.isFinished)
    {progress : Context.Progress}
    {rt : Runtime} (hstep : m.outcome = .ok progress rt) (hroots : m.context.Roots p i) :
    progress.context.Roots p i := by
  obtain ⟨top, callers, hstack, hmoves⟩ := h.coherent.moves hunfinished hstep
  rw [Context.Roots, hstack, List.map_cons] at hroots
  have horigin {a : Activation} {signal : Signal} {rt : Runtime}
      (hreport : m.report = .ok (a, signal) rt) :
      a.origin = top.origin :=
    (Moment.leaves_of_report hstack hreport).origin.trans (Activation.fetch_origin top)
  intro o ho
  cases hmoves with
  | works hreport =>
    rw [← horigin hreport] at hroots
    exact hroots o ho
  | ends => cases ho
  | @returns a caller rest rt hreport hcallers =>
    subst hcallers
    refine hroots o ?_
    rw [List.map_cons, List.getLast?_cons_cons, ← Activation.receive_origin caller a.result]
    exact ho
  | defers hreport =>
    rw [← horigin hreport] at hroots
    exact hroots o ho
  | @calls a d rt hreport hdepth =>
    rw [← horigin hreport] at hroots
    refine hroots o ?_
    rw [← List.getLast?_cons_cons (a := d.origin)]
    exact ho
  | faults => cases ho

theorem roots_run {n : Nat} {c c' : Context} {rt rt' : Runtime} {v : Value} (h : Course past c)
    (hunfinished : ¬ c.isFinished) (hroots : c.Roots p i) (hrun : c.run n rt = .ok (v, c') rt') :
    ∃ (m : Moment) (past' : List Moment), Course past' m.context ∧ ¬ m.context.isFinished ∧
      m.context.Roots p i ∧
      m.outcome = .ok (.stopped v c') rt' := by
  induction n generalizing past c rt with
  | zero => cases hrun
  | succ n ih =>
    let m : Moment := ⟨c, n, rt⟩
    obtain hstop | ⟨c₁, rt₁, hstep, hrun⟩ := Context.run_ok hrun
    · exact ⟨m, past, h, hunfinished, hroots, hstop⟩
    · have houtcome : m.outcome = .ok (.running c₁) rt₁ := hstep
      have hunfinished₁ : ¬ c₁.isFinished := Context.unfinished_of_running hunfinished hstep
      exact ih (h.step hunfinished houtcome) hunfinished₁ (h.roots_step hunfinished houtcome hroots)
        hrun

end Course

/-! ### How a context finishes -/

/-- How a context finishes that was to run `p` as called by `i`, and the value that it gives: its
outermost activation returns, or a fault ends it, or it may not hold any activation. The chronicle
is `log` by then. -/
inductive Concludes (p : ProcRef) (i : Invocation) (log : List Milestone) : ContextId →
    ContextState → Value → Prop
  | returned {past : List Moment} {m : Moment} {top a : Activation} {rt : Runtime} :
    Course past m.context →
    m.context.stack = [top] → top.proc = p → top.invocation = i → m.report = .ok (a, .returned) rt →
    rt.chronicle = log → Concludes p i log m.context.id .returned a.result
  | faulted {past : List Moment} {m : Moment} {top : Activation} {callers shown : List Activation}
    {why : Fault} {rt : Runtime} : Course past m.context → m.context.Roots p i →
      m.context.stack = top :: callers →
    m.Faults top callers shown why rt → rt.chronicle = log →
      Concludes p i log m.context.id (.faulted why) .null
  | refused {rt : Runtime} : rt.maxDepth = 0 → log = .created (rt.contexts + 1) :: rt.chronicle →
    Concludes p i log (rt.contexts + 1) (.faulted (.stackOverflow rt.maxDepth)) .null

def Context.Serves (c : Context) (p : ProcRef) (i : Invocation) : Prop := c.UnderWay ∧ c.Roots p i

namespace Context

variable {c c' : Context} {p : ProcRef} {i : Invocation} {n : Nat} {rt rt' : Runtime} {v : Value}

theorem concludes_of_resume (h : c.Serves p i) (hresume : c.resume n rt = .ok (v, c') rt') :
    if c'.isFinished then Concludes p i rt'.chronicle c'.id c'.state v else c'.Serves p i := by
  obtain ⟨⟨hunfinished, past, hcourse⟩, hroots⟩ := h
  rw [resume_eq_run hunfinished] at hresume
  obtain ⟨m, past', hcourse', hunfinished', hroots', hstop⟩ :=
    hcourse.roots_run hunfinished hroots hresume
  have hafter := hcourse'.roots_step hunfinished' hstop hroots'
  have hnext : Course (m :: past') c' := .step hcourse' hunfinished' hstop
  obtain ⟨top, callers, hstack, hmoves⟩ := hcourse'.coherent.moves hunfinished' hstop
  cases hmoves with
  | ends hreport hnone =>
    subst hnone
    obtain ⟨hproc, hinvocation⟩ := hroots' top.origin (by rw [hstack]; rfl)
    exact .returned hcourse' hstack hproc hinvocation hreport rfl
  | defers hreport => exact ⟨⟨Bool.false_ne_true, _, hnext⟩, hafter⟩
  | faults hfaults => exact .faulted hcourse' hroots' hstack hfaults rfl

theorem resume_gives (n : Nat) (c : Context) (rt : Runtime) : (c.resume n rt).Gives fun r rt' =>
    Keeps rt rt' ∧ r.2.id = c.id ∧ r.2.state ≠ .ready ∧ ∀ p i, c.Serves p i →
      if r.2.isFinished then Concludes p i rt'.chronicle r.2.id r.2.state r.1
        else r.2.Serves p i := by
  have hlawful := resume_isLawful n c rt
  cases hresume : c.resume n rt with
  | ok r rt' =>
    obtain ⟨hkept, hid, hready⟩ := hlawful.of_ok hresume
    exact ⟨hkept, hid, hready, fun p i hserves => concludes_of_resume hserves hresume⟩
  | fault e rt' =>
    rw [hresume] at hlawful
    exact hlawful.elim
  | breach b rt' => trivial
  | exhausted => trivial

end Context

/-! ### Waiting and being run -/

/-- The completion `k` waits in the map of the parked, with its context. -/
def Awaits (p : ProcRef) (i : Invocation) (k : Completion) (id : ContextId) (s : Scheduler) :
    Prop :=
  ∃ q, s.parked[id]? = some q ∧ q.completion = some k ∧ q.context.Serves p i

/-- The completion `k` has been run since the chronicle was `base`, as soon as its context had
finished. -/
inductive Delivered (p : ProcRef) (i : Invocation) (k : Completion) (id : ContextId)
    (base log : List Milestone) : Prop
  | run {n : Nat} {s : ContextState} {v : Value} {earlier : List Milestone} {rt rt' : Runtime} :
    Concludes p i earlier id s v → base <:+ earlier → rt.chronicle = .stopped id s :: earlier →
    k.run n id v rt = .ok () rt' → rt'.chronicle <:+ log → Delivered p i k id base log

theorem Delivered.mono {p : ProcRef} {i : Invocation} {k : Completion} {id : ContextId}
    {base log log' : List Milestone}
    (h : Delivered p i k id base log) (hlog : log <:+ log') : Delivered p i k id base log' := by
  obtain ⟨hconcludes, hbase, hchronicle, hrun, hsuffix⟩ := h
  exact .run hconcludes hbase hchronicle hrun (hsuffix.trans hlog)

theorem Keeps.suffix {rt rt' : Runtime} (h : Keeps rt rt') : rt.chronicle <:+ rt'.chronicle := by
  obtain ⟨log, hlog, _⟩ := h.adds
  exact ⟨log, hlog.symm⟩

theorem Adds.suffix {P : Milestone → Prop} {s s' : Scheduler} {rt rt' : Runtime}
    (h : Adds P s rt s' rt') :
    rt.chronicle <:+ rt'.chronicle := by
  obtain ⟨log, hlog, _⟩ := h.adds
  exact ⟨log, hlog.symm⟩

namespace Scheduler

/-- Nobody is taken out of the map of the parked, and nobody's entry is changed. -/
def Undisturbed (s s' : Scheduler) : Prop :=
  ∀ (id : ContextId) (q : Parked), s.parked[id]? = some q → s'.parked[id]? = some q

variable {active : List ContextId} {s s' : Scheduler} {rt rt' : Runtime} {p : ProcRef}
  {i : Invocation} {k : Completion} {id : ContextId} {base : List Milestone}

theorem Undisturbed.trans {s'' : Scheduler} (h : s.Undisturbed s') (h' : s'.Undisturbed s'') :
    s.Undisturbed s'' :=
  fun id q hq => h' id q (h id q hq)

theorem Undisturbed.awaits (h : s.Undisturbed s') (hawaits : Awaits p i k id s) :
    Awaits p i k id s' := by
  obtain ⟨q, hq, hk, hserves⟩ := hawaits
  exact ⟨q, h id q hq, hk, hserves⟩

theorem undisturbed_file {q : Parked} (habsent : s.parked[q.context.id]? = none) :
    s.Undisturbed (s.file q) := by
  intro id q' hq'
  rw [Ledger.parked_file, if_neg]
  · exact hq'
  · rintro rfl
    cases habsent.symm.trans hq'

theorem parked_of_park {fuel : Nat} {q : Parked} {w : Wait} {v : Value}
    (hstate : q.context.state = .deferred w)
    (hpark : s.park fuel q v rt = .ok s' rt') : s'.parked = (s.file q).parked := by
  cases w with
  | ticks n =>
    simp only [park, hstate] at hpark
    obtain ⟨_, hpark⟩ := Act.of_need hpark
    cases hpark
    rfl
  | external =>
    simp only [park, hstate] at hpark
    cases hpark
    rfl

theorem parkAll_undisturbed {fuel : Nat} {adrift : List Context}
    (hpark : s.parkAll fuel adrift rt = .ok s' rt')
    (h : Ledger active adrift s rt.contexts rt.chronicle) : s.Undisturbed s' := by
  induction adrift generalizing s rt with
  | nil =>
    cases hpark
    exact fun _ _ hq => hq
  | cons c adrift ih =>
    obtain ⟨_, ⟨w, hw⟩, habsent⟩ := h.floats c List.mem_cons_self
    obtain ⟨s₁, rt₁, hfirst, hpark⟩ := Act.of_bind_eq_ok hpark
    obtain ⟨h₁, _⟩ := (park_adrift fuel rt (p := { context := c }) .null h).of_ok hfirst
    have hfile := undisturbed_file (s := s) (q := { context := c }) habsent
    rw [Undisturbed, ← parked_of_park (q := { context := c }) hw hfirst] at hfile
    exact Undisturbed.trans hfile (ih hpark h₁)

theorem adopt_undisturbed (fuel : Nat) (h : Books active s rt) :
    (s.adopt fuel rt).Gives fun s' rt' => s.Undisturbed s' ∧ rt.chronicle <:+ rt'.chronicle := by
  refine ((adopt_spec fuel h).and (adopt_spec fuel h).result).mono
    fun s' rt' ⟨⟨_, _, hadds⟩, hadopt⟩ => ?_
  refine ⟨?_, hadds.suffix⟩
  simp only [adopt, Act.bind_apply, Act.get_apply, Act.set_apply] at hadopt
  exact parkAll_undisturbed hadopt h

/-- Whoever has stopped is put in the map with its completion, or has finished, and its completion
is run. -/
theorem park_delivers (fuel : Nat) {q : Parked} (v : Value) (hready : q.context.state ≠ .ready)
    (h : Books (q.context.id :: active) s rt) :
    (s.park fuel q v (rt.record (.stopped q.context.id q.context.state))).Gives fun s' rt' =>
      Books active s' rt' ∧ s.Undisturbed s' ∧
        if q.context.isFinished then ∀ k, q.completion = some k →
          k.run fuel q.context.id v (rt.record (.stopped q.context.id q.context.state)) = .ok () rt'
        else s'.parked[q.context.id]? = some q := by
  have hstopped := h.stopped hready
  have habsent := (h.absent_of_active List.mem_cons_self).1
  cases hfinished : q.context.isFinished with
  | false =>
    rw [hfinished, if_neg Bool.false_ne_true] at hstopped
    obtain ⟨_, ⟨w, hw⟩, _⟩ := hstopped.floats q.context List.mem_cons_self
    have hparked := park_adrift fuel (rt.record (.stopped q.context.id q.context.state)) v hstopped
    refine (hparked.and hparked.result).mono fun s' rt' ⟨⟨hbooks, hdetached, _⟩, hpark⟩ => ?_
    have hfiled := parked_of_park hw hpark
    have hfile := undisturbed_file habsent
    rw [Undisturbed, ← hfiled] at hfile
    refine ⟨?_, hfile, ?_⟩
    · rw [Books, hdetached]
      exact hbooks
    · rw [if_neg Bool.false_ne_true, hfiled, Ledger.parked_file, if_pos rfl]
  | true =>
    rw [hfinished, if_pos rfl] at hstopped
    have hparked :=
      park_finished fuel (rt.record (.stopped q.context.id q.context.state)) hfinished
        v hstopped rfl
    refine (hparked.and hparked.result).mono fun s' rt' hgiven => ?_
    obtain ⟨⟨hsame, hbooks, _⟩, hpark⟩ := hgiven
    subst hsame
    refine ⟨hbooks, fun _ _ hq => hq, ?_⟩
    rw [if_pos rfl]
    intro k hk
    rw [park_eq fuel s' hfinished] at hpark
    simp only [hk, Act.bind_apply] at hpark
    split at hpark <;> cases hpark
    assumption

/-- Whoever is driven is put in the map with its completion, or finishes, and its completion is
run. -/
theorem drive_delivers (fuel : Nat) {q : Parked} (h : Books (q.context.id :: active) s rt) :
    (s.drive fuel q rt).Gives fun s' rt' => s.Undisturbed s' ∧
      ∀ p i k base, q.completion = some k → q.context.Serves p i → base <:+ rt.chronicle →
        Awaits p i k q.context.id s' ∨ Delivered p i k q.context.id base rt'.chronicle := by
  refine Act.gives_bind (Context.resume_gives fuel q.context rt)
    fun ⟨v, c⟩ rt₁ ⟨hkept, hid, hready, hended⟩ => ?_
  dsimp only at hid hready hended ⊢
  rw [← hid]
  have hran : Books (c.id :: active) s rt₁ := hid ▸ hkept.books _ s h
  have hparked := park_delivers fuel (q := { q with context := c }) v hready hran
  refine Runtime.recording_gives ?_
  refine Act.gives_bind hparked fun s₂ rt₂ ⟨hbooks, hundisturbed, hq⟩ => ?_
  refine (adopt_undisturbed fuel hbooks).mono fun s₃ rt₃ ⟨hadopted, hlater⟩ => ?_
  refine ⟨hundisturbed.trans hadopted, fun p i k base hk hserves hbase => ?_⟩
  have hended := hended p i hserves
  cases hfinished : c.isFinished with
  | false =>
    simp only [hfinished, Bool.false_eq_true, if_false] at hq hended
    exact Or.inl (hadopted.awaits ⟨_, hq, hk, hended⟩)
  | true =>
    simp only [hfinished, if_true] at hq hended
    exact Or.inr (.run hended (hbase.trans hkept.suffix) rfl (hq k hk) hlater)

theorem rouse_delivers (fuel : Nat) {q : Parked} (hq : s.parked[q.context.id]? = some q)
    (h : Books [q.context.id] { s with parked := s.parked.erase q.context.id }
      (rt.record (.resumed q.context.id))) :
    (s.rouse fuel q rt).Gives fun s' rt' =>
      ∀ p i k id, Awaits p i k id s →
        Awaits p i k id s' ∨ id = q.context.id ∧
          ∀ base, base <:+ rt.chronicle → Delivered p i k id base rt'.chronicle := by
  refine Runtime.recording_gives
    ((drive_delivers fuel h).mono fun s' rt' ⟨hundisturbed, hdelivers⟩ => ?_)
  intro p i k id ⟨q', hq', hk, hserves⟩
  by_cases hid : id = q.context.id
  · subst hid
    obtain rfl : q = q' := Option.some.inj (hq.symm.trans hq')
    have hsuffix : rt.chronicle <:+ (rt.record (.resumed q.context.id)).chronicle :=
      List.suffix_cons _ _
    refine (hdelivers p i k rt.chronicle hk hserves hsuffix).imp_right fun hdelivered =>
      ⟨rfl, fun base hbase => ?_⟩
    obtain ⟨hconcludes, hearlier, hchronicle, hrun, hlater⟩ := hdelivered
    exact .run hconcludes (hbase.trans hearlier) hchronicle hrun hlater
  · refine Or.inl (hundisturbed.awaits ⟨q', ?_, hk, hserves⟩)
    rw [Std.ExtTreeMap.getElem?_erase, if_neg (by simpa using Ne.symm hid)]
    exact hq'

theorem callAsync_delivers (fuel : Nat) (p : ProcRef) (i : Invocation)
    (completion : Option Completion) (h : Books [] s rt) :
    (s.callAsync fuel p i completion rt).Gives fun r rt' => r.1 = rt.contexts + 1 ∧
      s.Undisturbed r.2 ∧
      ∀ k, completion = some k → Awaits p i k r.1 r.2 ∨
        Delivered p i k r.1 rt.chronicle rt'.chronicle := by
  have hentered := Keeps.opened rt p i
  have hcreated : rt.chronicle <:+ rt.newContext.2.chronicle := List.suffix_cons _ _
  rw [callAsync_eq]
  by_cases hdepth : rt.maxDepth = 0
  · rw [if_pos hdepth]
    cases completion with
    | none => exact ⟨rfl, fun _ _ hq => hq, by simp⟩
    | some k =>
      have hran := Keeping.completion fuel k (rt.contexts + 1) .null (rt.refused p i)
      refine Act.gives_bind hran.result fun _ rt' hrun =>
        ⟨rfl, fun _ _ hq => hq, fun k' hk => Or.inr ?_⟩
      cases hk
      have hconcludes : Concludes p i (.created (rt.contexts + 1) :: rt.chronicle) (rt.contexts + 1)
          (.faulted (.stackOverflow rt.maxDepth)) .null := .refused hdepth rfl
      refine .run hconcludes (List.suffix_cons _ _) ?_ hrun (List.suffix_refl _)
      show Milestone.stopped _ _ :: (rt.opened p i).2.chronicle = _
      rw [Runtime.opened_chronicle]
  · rw [if_neg hdepth]
    have hbooks := hentered.books [(rt.opened p i).1.id] s h.created
    refine Act.gives_bind (drive_delivers fuel hbooks) fun s' rt' ⟨hundisturbed, hdelivers⟩ => ?_
    refine ⟨rfl, hundisturbed, fun k hk => ?_⟩
    have hunder := Runtime.opened_underWay hdepth p i
    exact hdelivers p i k rt.chronicle hk ⟨hunder, Context.roots_opened rt p i⟩
      (hcreated.trans hentered.suffix)

/-- What is known of a completion in the course of an operation. -/
def Attends (p : ProcRef) (i : Invocation) (k : Completion) (id : ContextId) (base : List Milestone)
    (s : Scheduler) (rt : Runtime) : Prop :=
  base <:+ rt.chronicle ∧ (Awaits p i k id s ∨ Delivered p i k id base rt.chronicle)

theorem Attends.rouse (fuel : Nat) {q : Parked} (h : Attends p i k id base s rt)
    (hq : s.parked[q.context.id]? = some q)
    (hbooks : Books [q.context.id] { s with parked := s.parked.erase q.context.id }
      (rt.record (.resumed q.context.id))) : (s.rouse fuel q rt).Gives (Attends p i k id base) := by
  have hboth := (rouse_gives fuel hbooks).and (rouse_delivers fuel hq hbooks)
  refine hboth.mono fun s' rt' ⟨hsettles, hdelivers⟩ => ?_
  have hsuffix : rt.chronicle <:+ rt'.chronicle :=
    (List.suffix_cons _ _).trans hsettles.quiet.suffix
  obtain ⟨hbase, hawaits | hdelivered⟩ := h
  · refine ⟨hbase.trans hsuffix, (hdelivers p i k id hawaits).imp_right fun hdelivered => ?_⟩
    exact hdelivered.2 base hbase
  · exact ⟨hbase.trans hsuffix, Or.inr (hdelivered.mono hsuffix)⟩

theorem Attends.advance (fuel : Nat) (h : Attends p i k id base s rt) (hbooks : Books [] s rt)
    (hcalm : Calm rt.chronicle) : (s.advance fuel rt).Gives fun r => Attends p i k id base r.2 := by
  have hopened := (opens fuel hbooks hcalm).and (adopt_undisturbed fuel hbooks)
  refine Act.gives_bind hopened fun s₁ rt₁ ⟨hopens, hundisturbed, hsuffix⟩ =>
    Runtime.recording_gives ?_
  have hlater : rt₁.chronicle <:+ (rt₁.record (.ticked (s₁.tick + 1))).chronicle :=
    List.suffix_cons _ _
  have hsuffix := hsuffix.trans hlater
  refine resumeDue_keeps (fun _ _ _ h => h)
    (fun fuel s rt q h hq hbooks => h.rouse fuel hq hbooks) fuel 0 ?_
    hopens.books hopens.settled
  exact ⟨h.1.trans hsuffix, h.2.imp hundisturbed.awaits fun hdelivered => hdelivered.mono hsuffix⟩

theorem wake_delivers (fuel : Nat) (c : ContextId) (hbooks : Books [] s rt)
    (hawaits : Awaits p i k id s) :
    (s.wake fuel c rt).Gives fun r rt' =>
      Awaits p i k id r.2 ∨ c = id ∧ Delivered p i k id rt.chronicle rt'.chronicle := by
  simp only [wake]
  cases hq : s.parked[c]? with
  | none => exact Or.inl hawaits
  | some q =>
    dsimp only
    split <;> rename_i hstate
    · obtain ⟨rfl, _⟩ := hbooks.parked c q hq
      refine Act.gives_bind (rouse_delivers fuel hq (hbooks.woken hq hstate))
        fun s' rt' hdelivers => ?_
      refine (hdelivers p i k id hawaits).imp_right fun hdelivered => ⟨hdelivered.1.symm, ?_⟩
      exact hdelivered.2 rt.chronicle (List.suffix_refl _)
    · exact Or.inl hawaits

end Scheduler

namespace Host

variable {h h' : Host} {e : Episode} {before after episodes : List Episode} {p : ProcRef}
  {i : Invocation} {k : Completion} {id : ContextId}

/-! ### Operations -/

/-- A completion that waits goes on waiting, or a tick or the wake-up of its context has it run. -/
theorem awaits_perform {fuel : Nat} {op : Operation} (hin : h.InOrder)
    (hawaits : Awaits p i k id h.scheduler) (hperform : h.perform fuel op = some (e, h')) :
    Awaits p i k id h'.scheduler ∨ (e.operation = .tick ∨ e.operation = .wake id) ∧
      Delivered p i k id h.runtime.chronicle h'.runtime.chronicle := by
  let Q (e : Episode) (h' : Host) : Prop := Awaits p i k id h'.scheduler ∨
    (e.operation = .tick ∨ e.operation = .wake id) ∧
      Delivered p i k id h.runtime.chronicle h'.runtime.chronicle
  have hleft {α : Type} (x : Act Runtime α) (f : α → Answer)
      (hact : op.act fuel h.scheduler = x >>= fun a => Pure.pure (f a, h.scheduler)) : Q e h' :=
    of_preserves (R := fun _ _ => True)
      (fun _ _ _ => trivial) f hact (fun _ _ _ => Or.inl hawaits) hperform
  have hstart (p' : ProcRef) (i' : Invocation) (completion : Option Completion)
      (hact : op.act fuel h.scheduler =
        h.scheduler.callAsync fuel p' i' completion >>= fun q => Pure.pure (.context q.1, q.2)) :
          Q e h' := by
    refine of_start (Q := Q) hact ?_ hperform
    refine (Scheduler.callAsync_delivers fuel p' i' completion hin.books).mono fun r rt hdelivers =>
      ?_
    exact Or.inl (hdelivers.2.1.awaits hawaits)
  cases op with
  | run p i => exact hleft _ _ rfl
  | callOn o name arguments usr => exact hleft _ _ rfl
  | newObject path arguments usr => exact hleft _ _ rfl
  | spawn p i => exact hstart p i none rfl
  | callAsync p i completion => exact hstart p i completion rfl
  | wake c =>
    refine of_gives (Q := Q) ?_ hperform
    refine Act.gives_bind (Scheduler.wake_delivers fuel c hin.books hawaits) fun r rt hdelivers =>
      ?_
    obtain hawaits | ⟨rfl, hdelivered⟩ := hdelivers
    · exact Or.inl hawaits
    · exact Or.inr ⟨Or.inr rfl, hdelivered⟩
  | tick =>
    refine of_gives (Q := Q) ?_ hperform
    have hattends : Scheduler.Attends p i k id h.runtime.chronicle h.scheduler h.runtime :=
      ⟨List.suffix_refl _, Or.inl hawaits⟩
    refine Act.gives_bind (hattends.advance fuel hin.books hin.calm) fun r rt hattends => ?_
    exact hattends.2.imp_right fun hdelivered => ⟨Or.inl rfl, hdelivered⟩

/-- A completion that waits goes on waiting, or is run in one of the episodes. -/
theorem Runs.awaits (hin : h.InOrder) (hawaits : Awaits p i k id h.scheduler)
    (hruns : h.Runs episodes h') :
    Awaits p i k id h'.scheduler ∨ ∃ earlier e later h₁ h₂, episodes = earlier ++ e :: later ∧
      h.Runs earlier h₁ ∧ h₁.Passes e h₂ ∧ h₂.Runs later h' ∧
      (e.operation = .tick ∨ e.operation = .wake id) ∧
      Delivered p i k id h₁.runtime.chronicle h₂.runtime.chronicle := by
  induction hruns with
  | nil h => exact Or.inl hawaits
  | @cons fuel h h₂ h' op e episodes hperform hrest ih =>
    have hpasses := Host.passes hin hperform
    obtain hawaits | ⟨hop, hdelivered⟩ := awaits_perform hin hawaits hperform
    · refine (ih hpasses.inOrder hawaits).imp_right ?_
      rintro ⟨earlier, e', later, h₃, h₄, rfl, hearlier, hpasses', hlater, hop, hdelivered⟩
      exact ⟨e :: earlier, e', later, h₃, h₄, rfl, .cons hperform hearlier, hpasses', hlater,
        hop, hdelivered⟩
    · exact Or.inr ⟨[], e, episodes, h, h₂, rfl, .nil h, hpasses, hrest, hop, hdelivered⟩

end Host

/-! ### Runs -/

/-- In the course of the episode `e`, after the deeds `earlier`, a context finishes and its
completion `k` is run, as soon as it has finished and with what it gives. -/
inductive CompletesIn (p : ProcRef) (i : Invocation) (k : Completion) (id : ContextId)
    (earlier : List Milestone) (e : Episode) : Prop
  | run {pre ran post : List Milestone} {s : ContextState} {v : Value} {n : Nat}
    {rt rt' : Runtime} :
    e.deeds = pre ++ .stopped id s :: .completed id v :: (ran ++ post) →
    Concludes p i (earlier ++ pre).reverse id s v →
    rt.chronicle = (earlier ++ (pre ++ [Milestone.stopped id s])).reverse →
    k.run n id v rt = .ok () rt' →
    rt'.chronicle = (earlier ++ (pre ++ Milestone.stopped id s :: .completed id v :: ran)).reverse →
    (∀ v', .completed id v' ∉ pre ∧ .completed id v' ∉ ran ++ post) → CompletesIn p i k id earlier e

/-- What becomes of the completion `k` of a context that is started in the first of the `episodes`,
after others, to run `p` as called by `i`. -/
structure Completes (p : ProcRef) (i : Invocation) (k : Completion) (id : ContextId)
    (before episodes : List Episode) : Prop where
  /-- Nothing is run as long as the context is unfinished. -/
  patient : ∀ v pre post, (before ++ episodes).flatMap Episode.deeds =
    pre ++ .completed id v :: post → Finished id pre
  /-- Once the context has finished, the completion has been run, in the operation in which it
  finished and in no other. -/
  once : Finished id (episodes.flatMap Episode.deeds) → ∃ earlier e later, episodes =
    earlier ++ e :: later ∧
    (earlier = [] ∨ e.operation = .tick ∨ e.operation = .wake id) ∧
    CompletesIn p i k id ((before ++ earlier).flatMap Episode.deeds) e ∧
    ∀ v, .completed id v ∉ (before ++ earlier).flatMap Episode.deeds ∧
      .completed id v ∉ later.flatMap Episode.deeds

namespace Host

variable {h h' : Host} {e : Episode} {before after episodes : List Episode} {p : ProcRef}
  {i : Invocation} {k : Completion} {id : ContextId}

theorem not_finished_of_awaits (hin : h.InOrder) (hawaits : Awaits p i k id h.scheduler) :
    ¬ Finished id h.runtime.chronicle := by
  obtain ⟨q, hq, _, _⟩ := hawaits
  obtain ⟨hid, hstanding, w, hw⟩ := hin.books.parked id q hq
  rw [hw] at hstanding
  exact ((hin.books.unfinished_iff id).mpr ⟨w, hstanding⟩).2

/-- What is delivered in an operation is run in its episode, and at no other time. -/
theorem completesIn_of_delivered {h₁ h₂ : Host} {past later : List Milestone}
    (hpast : h₁.runtime.chronicle = past.reverse) (hpasses : h₁.Passes e h₂)
    (hlawful : Lawful (later.reverse ++ h₂.runtime.chronicle))
    (h : Delivered p i k id h₁.runtime.chronicle h₂.runtime.chronicle) :
    CompletesIn p i k id past e ∧ ∀ v, .completed id v ∉ past ∧ .completed id v ∉ later := by
  obtain @⟨n, s, v, earlier, rt, rt', hconcludes, hearlier, hchronicle, hrun, hsuffix⟩ := h
  obtain ⟨pre, rfl⟩ := hearlier
  obtain ⟨post, hpost⟩ := hsuffix
  obtain ⟨ran, hran, _⟩ := ((Keeping.completion n k id v rt).of_ok hrun).adds
  rw [hpast] at hconcludes hchronicle
  have hran : rt'.chronicle = ran ++ .completed id v :: .stopped id s :: (pre ++ past.reverse) := by
    rw [hran, ← hchronicle]
    rfl
  have hlog : h₂.runtime.chronicle =
      (post ++ (ran ++ .completed id v :: .stopped id s :: pre)) ++ past.reverse := by
    rw [← hpost, hran]
    simp
  have hreverse : e.deeds.reverse = post ++ (ran ++ .completed id v :: .stopped id s :: pre) := by
    rw [hpasses.chronicle, hpast] at hlog
    exact List.append_cancel_right hlog
  have hdeeds : e.deeds = pre.reverse ++ .stopped id s :: .completed id v ::
      (ran.reverse ++ post.reverse) := by
    rw [← List.reverse_reverse e.deeds, hreverse]
    simp
  have hsplit : later.reverse ++ h₂.runtime.chronicle =
      (later.reverse ++ post ++ ran) ++ .completed id v ::
        (.stopped id s :: (pre ++ past.reverse)) := by
    rw [hlog]
    simp
  -- The chronicle has the completion once, and this is where.
  have hnever (v' : Value) := completed_once (hsplit ▸ hlawful) v'
  simp only [List.mem_append, List.mem_cons, List.mem_reverse, not_or] at hnever
  refine ⟨.run hdeeds ?_ ?_ hrun ?_ fun v' => ?_, fun v' => ⟨(hnever v').2.2.2, (hnever v').1.1.1⟩⟩
  · rw [List.reverse_append, List.reverse_reverse]
    exact hconcludes
  · rw [hchronicle]
    simp
  · rw [hran]
    simp
  · obtain ⟨⟨⟨_, hpost⟩, hran⟩, _, hpre, _⟩ := hnever v'
    simp [hpre, hran, hpost]

/-- A completion that is handed over waits in the end, or it has been run in one of the episodes. -/
theorem Runs.starts (hin : h.InOrder) (hruns : h.Runs (e :: after) h')
    (hop : e.operation = .callAsync p i (some k)) :
    ∃ id, e.started? = some id ∧ (Awaits p i k id h'.scheduler ∨
      ∃ earlier e' later h₁ h₂, e :: after = earlier ++ e' :: later ∧
        (earlier = [] ∨ e'.operation = .tick ∨ e'.operation = .wake id) ∧ h.Runs earlier h₁ ∧
        h₁.Passes e' h₂ ∧
        h₂.Runs later h' ∧ Delivered p i k id h₁.runtime.chronicle h₂.runtime.chronicle) := by
  cases hruns with
  | @cons fuel _ h₂ _ op _ _ hperform hafter =>
    obtain rfl := (operation_of_perform hperform).symm.trans hop
    have hpasses := Host.passes hin hperform
    have hstarts : ∃ id, e.started? = some id ∧
        (Awaits p i k id h₂.scheduler ∨
          Delivered p i k id h.runtime.chronicle h₂.runtime.chronicle) := by
      refine of_gives (Q := fun e h₂ => ∃ id, e.started? = some id ∧
        (Awaits p i k id h₂.scheduler ∨
          Delivered p i k id h.runtime.chronicle h₂.runtime.chronicle)) ?_ hperform
      refine Act.gives_bind (Scheduler.callAsync_delivers fuel p i (some k) hin.books)
        fun r rt hdelivers => ?_
      exact ⟨r.1, rfl, hdelivers.2.2 k rfl⟩
    obtain ⟨id, hstarted, hawaits | hdelivered⟩ := hstarts
    · refine ⟨id, hstarted, (hafter.awaits hpasses.inOrder hawaits).imp_right ?_⟩
      rintro ⟨earlier, e', later, h₃, h₄, rfl, hearlier, hpasses', hlater, hop', hdelivered⟩
      exact ⟨e :: earlier, e', later, h₃, h₄, rfl, Or.inr hop', .cons hperform hearlier, hpasses',
        hlater, hdelivered⟩
    · exact ⟨id, hstarted,
        Or.inr ⟨[], e, after, h, h₂, rfl, Or.inl rfl, .nil h, hpasses, hafter, hdelivered⟩⟩

/-- Whatever a host does, the completion of a context that it starts is not run as long as the
context is unfinished, and it is run once when the context finishes, in that operation, with the
value of the outermost activation or else with null. -/
theorem Runs.completes_once (hfresh : h.IsFresh) (hruns : h.Runs (before ++ e :: after) h')
    (hop : e.operation = .callAsync p i (some k)) :
    ∃ id, e.started? = some id ∧ Completes p i k id before (e :: after) := by
  have hin := hfresh.inOrder
  have hwhole := hruns.chronicle hin
  have hlawful := (hruns.inOrder hin).books.lawful
  rw [hfresh.chronicle, List.append_nil] at hwhole
  obtain ⟨h₁, hbefore, hrest⟩ := hruns.split
  have hin₁ := hbefore.inOrder hin
  have hpast := hbefore.chronicle hin
  rw [hfresh.chronicle, List.append_nil] at hpast
  obtain ⟨id, hstarted, hends⟩ := hrest.starts hin₁ hop
  refine ⟨id, hstarted, fun v pre post hdeeds => ?_, fun hfinished => ?_⟩
  · rw [hwhole, hdeeds] at hlawful
    exact finished_before_completed hlawful
  · obtain hawaits | ⟨earlier, e', later, h₂, h₃, heq, hop', hearlier, hpasses, hlater,
      hdelivered⟩ := hends
    · have hmem {m : Milestone} (hm : m ∈ (e :: after).flatMap Episode.deeds) :
          m ∈ h'.runtime.chronicle := by
        rw [hwhole, List.mem_reverse, List.flatMap_append]
        exact List.mem_append_right _ hm
      refine absurd ?_ (not_finished_of_awaits (hruns.inOrder hin) hawaits)
      exact hfinished.imp hmem fun ⟨why, hm⟩ => ⟨why, hmem hm⟩
    · have hpast' : h₂.runtime.chronicle = ((before ++ earlier).flatMap Episode.deeds).reverse := by
        rw [hearlier.chronicle hin₁, hpast, List.flatMap_append, List.reverse_append]
      rw [hlater.chronicle hpasses.inOrder] at hlawful
      exact ⟨earlier, e', later, heq, hop',
        completesIn_of_delivered hpast' hpasses hlawful hdelivered⟩

def answering : Host where
  runtime := {
    procs := #[{
      signature := { name := "answer" }
      body := .routine false fun _ _ => .ask (.sleep 1) fun _ => .done (.int 5) }] }

def noting : Completion := fun v => .ask (.table (.note (.native v))) fun _ => .done ()

theorem answer_is_noted_once : ∃ start tick h', answering.Runs ([] ++ [start, tick]) h' ∧
    start.deeds = [.created 1, .stopped 1 (.deferred (.ticks 1)), .filed 1 1] ∧
    tick.deeds = [.ticked 1, .resumed 1, .stopped 1 .returned, .completed 1 (.int 5)] ∧
    h'.runtime.store.journal.toList = [.native (.int 5)] ∧
    Completes ⟨1, "answer"⟩ {} noting 1 [] [start, tick] := by
  have hperforms :
      ((answering.performAll 9 [.callAsync ⟨1, "answer"⟩ {} (some noting), .tick]).map fun q =>
      (q.1.map fun e => (e.started?, e.deeds), q.2.runtime.store.journal.toList)) = some (
        [(some 1, [.created 1, .stopped 1 (.deferred (.ticks 1)), .filed 1 1]),
          (none, [.ticked 1, .resumed 1, .stopped 1 .returned, .completed 1 (.int 5)])],
        [.native (.int 5)]) := by decide +kernel
  obtain ⟨⟨episodes, h'⟩, hperform, heq⟩ := Option.map_eq_some_iff.mp hperforms
  obtain ⟨hepisodes, hjournal⟩ := Prod.mk.inj heq
  obtain ⟨start, rest, rfl, hstart, hrest⟩ := List.map_eq_cons_iff.mp hepisodes
  obtain ⟨tick, rest, rfl, htick, hnil⟩ := List.map_eq_cons_iff.mp hrest
  obtain rfl := List.map_eq_nil_iff.mp hnil
  have hop : start.operation = .callAsync ⟨1, "answer"⟩ {} (some noting) :=
    (List.cons.inj (operations_of_performAll hperform)).1
  have hruns : answering.Runs ([] ++ [start, tick]) h' := runs_of_performAll hperform
  obtain ⟨id, hstarted, hcompletes⟩ := Runs.completes_once ⟨rfl, rfl, rfl⟩ hruns hop
  obtain ⟨hfirst, hdeeds⟩ := Prod.mk.inj hstart
  obtain rfl : id = 1 := Option.some.inj (hstarted.symm.trans hfirst)
  exact ⟨start, tick, h', hruns, hdeeds, (Prod.mk.inj htick).2, hjournal, hcompletes⟩

end Host

end ProcEngine
