import ProcEngine.Proofs.Scheduler.Completions
/-!
# Who is filed when

A context that the scheduler drives is filed as soon as it goes to sleep. One that goes to sleep
under a call made from outside or by host code is filed when it is adopted, and of those who wait
for that the first to have gone to sleep is the first to be filed. `Orderly` states this of a
chronicle, for the contexts that the scheduler has started; `Tidy` is what everything that runs
keeps of it.
-/

namespace ProcEngine

namespace Chronicle

/-! ### Orderly chronicles -/

/-- Those who have gone to sleep and have not been filed, the latest first. -/
def unfiled : List Milestone → List ContextId
  | [] => []
  | .stopped c (.deferred (.ticks _)) :: log => c :: unfiled log
  | .filed c _ :: log => (unfiled log).filter (· ≠ c)
  | _ :: log => unfiled log

/-- The scheduler drives the context: it has started it, or has taken it up again. -/
def Driven (started : List ContextId) (c : ContextId) (log : List Milestone) : Prop :=
  c ∈ started ∨ .resumed c ∈ log

/-- When a milestone may follow a chronicle, as far as filing goes. -/
structure Heeds (started : List ContextId) (m : Milestone) (log : List Milestone) : Prop where
  /-- Whoever is driven is filed as soon as it goes to sleep. -/
  prompt : ∀ c n, log.head? = some (.stopped c (.deferred (.ticks n))) → Driven started c log →
    ∃ t, m = .filed c t
  /-- Of the others the first to have gone to sleep is filed first. -/
  turn : ∀ c t, m = .filed c t → Driven started c log ∨ (unfiled log).getLast? = some c

def Orderly (started : List ContextId) : List Milestone → Prop
  | [] => True
  | m :: log => Orderly started log ∧ Heeds started m log

variable {started : List ContextId} {a b c : ContextId} {log later : List Milestone}
  {m : Milestone} {n : UInt64}

theorem Orderly.of_append (h : Orderly started (later ++ log)) : Orderly started log := by
  induction later with
  | nil => exact h
  | cons m later ih => exact ih h.1

theorem driven_cons (hm : m ≠ .resumed c) : Driven started c (m :: log) ↔ Driven started c log := by
  simp [Driven, Ne.symm hm]

theorem stopped_of_unfiled (hc : c ∈ unfiled log) :
    ∃ n, .stopped c (.deferred (.ticks n)) ∈ log := by
  fun_induction unfiled log with
  | case1 => cases hc
  | case2 c' n log ih =>
    obtain rfl | hc := List.mem_cons.mp hc
    · exact ⟨n, List.mem_cons_self⟩
    · exact (ih hc).imp fun _ => List.mem_cons_of_mem _
  | case3 c' t log ih => exact (ih (List.mem_filter.mp hc).1).imp fun _ => List.mem_cons_of_mem _
  | case4 m log _ _ ih => exact (ih hc).imp fun _ => List.mem_cons_of_mem _

/-- Whoever has not been filed is asleep and not on the queue. -/
theorem asleep_of_unfiled (h : Lawful log) (hc : c ∈ unfiled log) :
    (∃ w, wakes c log = some w) ∧ ∀ e ∈ pending log, e.context ≠ c := by
  induction log with
  | nil => cases hc
  | cons m log ih =>
    have hfits := h.2
    cases m with
    | completed c' v | ticked t => exact ih h.1 hc
    | filed c' t =>
      obtain ⟨hc, hne⟩ := List.mem_filter.mp hc
      obtain ⟨hasleep, hfree⟩ := ih h.1 hc
      refine ⟨hasleep, fun e he => ?_⟩
      obtain rfl | he := List.mem_cons.mp he
      · exact Ne.symm (of_decide_eq_true hne)
      · exact hfree e he
    | resumed c' =>
      obtain ⟨⟨w, hw⟩, hfree⟩ := ih h.1 hc
      have hne : c' ≠ c := by
        rintro rfl
        obtain hexternal | ⟨e, he, hcontext, _⟩ := hfits
        · obtain ⟨n, hasleep⟩ := standing_of_wakes hw
          exact absurd (hasleep.symm.trans hexternal) (by simp)
        · exact hfree e he hcontext
      exact ⟨⟨w, by simpa only [wakes, hne, if_false] using hw⟩,
        fun e he => hfree e (List.mem_filter.mp he).1⟩
    | created c' =>
      obtain ⟨⟨w, hw⟩, hfree⟩ := ih h.1 hc
      have hne : c' ≠ c := by
        rintro rfl
        obtain ⟨n, hasleep⟩ := standing_of_wakes hw
        exact absurd (hasleep.symm.trans hfits) (by simp)
      exact ⟨⟨w, by simpa only [wakes, hne, if_false] using hw⟩, hfree⟩
    | stopped c' s =>
      -- Whoever stops has been running, so that it is none of those who are asleep.
      have hrunning {x : ContextId} (hx : ∃ w, wakes x log = some w) : c' ≠ x := by
        rintro rfl
        obtain ⟨w, hw⟩ := hx
        obtain ⟨n, hasleep⟩ := standing_of_wakes hw
        exact absurd (hasleep.symm.trans hfits.1) (by simp)
      have hbefore (hc : c ∈ unfiled log) :
          (∃ w, wakes c (.stopped c' s :: log) = some w) ∧ ∀ e ∈ pending log, e.context ≠ c := by
        obtain ⟨hasleep, hfree⟩ := ih h.1 hc
        have hne := hrunning hasleep
        exact ⟨by simpa only [wakes, hne, if_false] using hasleep, hfree⟩
      cases s with
      | deferred w =>
        cases w with
        | external => exact hbefore hc
        | ticks n =>
          obtain rfl | hc := List.mem_cons.mp hc
          · refine ⟨⟨_, by rw [wakes, if_pos rfl]; rfl⟩, fun e he => ?_⟩
            exact Ne.symm (hrunning ⟨_, wakes_of_pending h.1 he⟩)
          · exact hbefore hc
      | _ => exact hbefore hc

end Chronicle

open Chronicle

/-! ### Those adrift -/

/-- The context, if it is asleep. -/
def Context.sleeper? (c : Context) : Option ContextId :=
  match c.state with
  | .deferred (.ticks _) => some c.id
  | _ => none

/-- Those who have gone to sleep and have not been filed are adrift, in the order in which they went
to sleep, and the scheduler drives none of them. -/
structure Tidy (started : List ContextId) (adrift : List Context) (contexts : Nat)
    (log : List Milestone) : Prop where
  orderly : Orderly started log
  queue : adrift.filterMap Context.sleeper? = (unfiled log).reverse
  idle : ∀ c ∈ unfiled log, ¬ Driven started c log
  known : ∀ c, Driven started c log → c ≤ contexts

namespace Tidy

variable {started : List ContextId} {adrift : List Context} {contexts : Nat} {log : List Milestone}
  {m : Milestone}

theorem start (contexts : Nat) : Tidy [] [] contexts [] where
  orderly := trivial
  queue := rfl
  idle c hc := by cases hc
  known c hc := by simp [Driven] at hc

/-- Where the scheduler drives nobody who is to be filed, anything else may come next. -/
theorem heeds (h : Tidy started adrift contexts log) (hm : ∀ c t, m ≠ .filed c t) :
    Heeds started m log where
  prompt c n hhead hdriven := by
    obtain ⟨earlier, rfl⟩ := List.head?_eq_some_iff.mp hhead
    exact absurd hdriven (h.idle c List.mem_cons_self)
  turn c t heq := absurd heq (hm c t)

/-- Nothing changes when nobody goes to sleep, is filed or is taken up again. -/
theorem pass (h : Tidy started adrift contexts log) (hfiled : ∀ c t, m ≠ .filed c t)
    (hresumed : ∀ c, m ≠ .resumed c)
    (hsame : unfiled (m :: log) = unfiled log) : Tidy started adrift contexts (m :: log) where
  orderly := ⟨h.orderly, h.heeds hfiled⟩
  queue := by rw [hsame, h.queue]
  idle c hc := by
    rw [driven_cons (hresumed c)]
    exact h.idle c (hsame ▸ hc)
  known c hc := h.known c ((driven_cons (hresumed c)).mp hc)

theorem mono (h : Tidy started adrift contexts log) {contexts' : Nat} (hle : contexts ≤ contexts') :
    Tidy started adrift contexts' log :=
  { h with known := fun c hc => Nat.le_trans (h.known c hc) hle }

/-- Whoever is not driven is adrift when it goes to sleep, behind those who are. -/
theorem stopped (h : Tidy started adrift contexts log) {c : Context}
    (hidle : ¬ Driven started c.id log) :
    Tidy started (if c.isFinished then adrift else adrift ++ [c]) contexts
      (.stopped c.id c.state :: log) := by
  have hfiled : ∀ c' t, (.stopped c.id c.state : Milestone) ≠ .filed c' t := by simp
  have hresumed : ∀ c', (.stopped c.id c.state : Milestone) ≠ .resumed c' := by simp
  cases hstate : c.state with
  | deferred w =>
    rw [hstate] at hfiled hresumed
    have hunfinished : c.isFinished = false := by rw [Context.isFinished, hstate]
    rw [hunfinished, if_neg Bool.false_ne_true]
    cases w with
    | external =>
      have hpass := h.pass hfiled hresumed rfl
      exact { hpass with queue := by simp [hpass.queue, Context.sleeper?, hstate] }
    | ticks n =>
      exact {
        orderly := ⟨h.orderly, h.heeds hfiled⟩
        queue := by
          rw [List.filterMap_append, h.queue, unfiled, List.reverse_cons]
          simp [Context.sleeper?, hstate]
        idle := fun c' hc' => by
          rw [driven_cons (hresumed c')]
          obtain rfl | hc' := List.mem_cons.mp hc'
          · exact hidle
          · exact h.idle c' hc'
        known := fun c' hc' => h.known c' ((driven_cons (hresumed c')).mp hc') }
  | returned | faulted why =>
    rw [hstate] at hfiled hresumed
    have hfinished : c.isFinished = true := by rw [Context.isFinished, hstate]
    rw [hfinished, if_pos rfl]
    exact h.pass hfiled hresumed rfl
  | ready =>
    rw [hstate] at hfiled hresumed
    have hunfinished : c.isFinished = false := by rw [Context.isFinished, hstate]
    rw [hunfinished, if_neg Bool.false_ne_true]
    have hpass := h.pass hfiled hresumed rfl
    exact { hpass with queue := by simp [hpass.queue, Context.sleeper?, hstate] }

end Tidy

/-! ### While contexts run -/

/-- What the runtime knows is tidy. -/
abbrev Runtime.IsTidy (started : List ContextId) (rt : Runtime) : Prop :=
  Tidy started rt.detached.toList rt.contexts rt.chronicle

/-- What is tidy is left tidy. -/
def Tidies (started : List ContextId) (rt rt' : Runtime) : Prop :=
  rt.IsTidy started → rt'.IsTidy started

namespace Tidies

variable {started : List ContextId}

instance : Std.Refl (Tidies started) := ⟨fun _ h => h⟩

instance : Trans (Tidies started) (Tidies started) (Tidies started) := ⟨fun h h' ht => h' (h ht)⟩

theorem carried : Carried (Tidies started) where
  store _ _ _ h := h
  activate rt p id i := by
    simp only [Runtime.activate]
    cases (rt.proc p).mark with
    | none => exact fun h => h
    | some label => exact fun h => h

theorem tell (rt : Runtime) (e : Event) : Tidies started rt (rt.tell e) := fun h => h

theorem opened (rt : Runtime) (p : ProcRef) (i : Invocation) :
    Tidies started rt (rt.opened p i).2 := fun h =>
  carried.activate rt.newContext.2 p rt.newContext.1.id i
    ((h.mono (Nat.le_succ rt.contexts)).pass (by simp) (by simp) rfl)

end Tidies

theorem Keeps.driven_iff {started : List ContextId} {rt rt' : Runtime} (h : Keeps rt rt')
    (c : ContextId) :
    Driven started c rt'.chronicle ↔ Driven started c rt.chronicle := by
  obtain ⟨log, hlog, hrun⟩ := h.adds
  have hno : .resumed c ∉ log := fun hm => hrun _ hm
  simp [Driven, hlog, hno]

theorem Runtime.IsTidy.leave {started : List ContextId} {rt : Runtime} (h : rt.IsTidy started)
    {c : Context} (hidle : ¬ Driven started c.id rt.chronicle) : (rt.leave c).IsTidy started := by
  have hstopped := h.stopped hidle
  rw [Runtime.leave]
  split <;> rename_i hfinished
  · rwa [if_pos hfinished] at hstopped
  · rw [if_neg hfinished] at hstopped
    simpa [Runtime.IsTidy, Runtime.detach, Runtime.record] using hstopped

namespace Tidies

variable {started : List ContextId}

theorem callWith {drive : Drive} (hlawful : drive.IsLawful)
    (hdrive : ∀ c, Act.Preserves (Tidies started) (drive c))
    (p : ProcRef) (i : Invocation) : Act.Preserves (Tidies started)
    (Runtime.callWith drive p i) := by
  -- A new context is not driven, and contexts that run take nobody up.
  have hidle {rt rt' : Runtime} (h : rt.IsTidy started) (hkeeps : Keeps rt.newContext.2 rt') :
      ¬ Driven started (rt.contexts + 1) rt'.chronicle := by
    rw [hkeeps.driven_iff]
    intro hdriven
    rw [Runtime.newContext, Runtime.newContextOf, Runtime.record, driven_cons (by simp)] at hdriven
    exact absurd (h.known _ hdriven) (Nat.not_succ_le_self _)
  refine Runtime.preserves_callWith (fun rt _ h => ?_) fun rt _ => ?_
  · let c : Context := { rt.newContext.1 with state := .faulted (.stackOverflow rt.maxDepth) }
    have hkeeps : Keeps rt.newContext.2 (rt.opened p i).2 := .opened rt p i
    exact (opened rt p i h).leave (c := c) (hidle h hkeeps)
  · have hgives := (hdrive (rt.opened p i).1).gives (hlawful (rt.opened p i).1 (rt.opened p i).2)
    refine hgives.mono fun q rt' hdriven h => ?_
    obtain ⟨⟨hkeeps, hid, _⟩, htidies⟩ := hdriven
    refine (htidies (opened rt p i h)).leave ?_
    rw [hid]
    exact hidle h ((Keeps.opened rt p i).trans hkeeps)

theorem run (n : Nat) (c : Context) : Act.Preserves (Tidies started) (Context.run n c) :=
  carried.run tell (fun n hrun => callWith (Context.run_isLawful n) hrun) n c

theorem resume (n : Nat) (c : Context) : Act.Preserves (Tidies started) (Context.resume n c) := by
  rw [Context.resume]
  split
  · exact Act.Preserves.pure _
  · exact run n c

theorem call (n : Nat) (p : ProcRef) (i : Invocation) :
    Act.Preserves (Tidies started) (Runtime.callWith (Context.resume n) p i) :=
  callWith (Context.resume_isLawful n) (resume n) p i

theorem perform {α : Type} (n : Nat) (program : Program HostCalls α) :
    Act.Preserves (Tidies started) (Runtime.perform n program) :=
  Act.Preserves.run (carried.serve (call n) n) program

end Tidies

/-! ### While the scheduler works -/

namespace Tidy

variable {started : List ContextId} {adrift : List Context} {contexts : Nat} {log : List Milestone}
  {c : Context} {id : ContextId}

theorem mem_of_unfiled (h : Tidy started adrift contexts log) (hid : id ∈ unfiled log) :
    ∃ d ∈ adrift, d.id = id ∧ d.sleeper? = some id := by
  rw [← List.mem_reverse, ← h.queue] at hid
  obtain ⟨d, hd, hsleeper⟩ := List.mem_filterMap.mp hid
  refine ⟨d, hd, ?_, hsleeper⟩
  rw [Context.sleeper?] at hsleeper
  split at hsleeper <;> cases hsleeper
  rfl

/-- The first of those adrift is adopted, and filed if it is asleep. -/
theorem adopted (h : Tidy started (c :: adrift) contexts log) {n : UInt64}
    (hasleep : c.state = .deferred (.ticks n)) (hapart : ∀ d ∈ adrift, d.id ≠ c.id) (t : UInt64) :
    Tidy started adrift contexts (.filed c.id t :: log) := by
  have hqueue := h.queue
  have hsleeper : c.sleeper? = some c.id := by rw [Context.sleeper?, hasleep]
  rw [List.filterMap_cons_some hsleeper] at hqueue
  have hunfiled : unfiled log = (adrift.filterMap Context.sleeper?).reverse ++ [c.id] := by
    rw [← List.reverse_reverse (unfiled log), ← hqueue, List.reverse_cons]
  have hothers : ∀ x ∈ (adrift.filterMap Context.sleeper?).reverse, x ≠ c.id := by
    intro x hx
    obtain ⟨d, hd, hsleeper⟩ := List.mem_filterMap.mp (List.mem_reverse.mp hx)
    rw [Context.sleeper?] at hsleeper
    split at hsleeper <;> cases hsleeper
    exact hapart d hd
  have hleft : unfiled (.filed c.id t :: log) = (adrift.filterMap Context.sleeper?).reverse := by
    rw [unfiled, hunfiled, List.filter_append,
      List.filter_eq_self.mpr fun x hx => by simpa using hothers x hx]
    simp
  exact {
    orderly := by
      refine ⟨h.orderly, fun c' n' hhead hdriven => ?_, fun c' t' heq => Or.inr ?_⟩
      · obtain ⟨earlier, rfl⟩ := List.head?_eq_some_iff.mp hhead
        exact absurd hdriven (h.idle c' List.mem_cons_self)
      · cases heq
        rw [hunfiled, List.getLast?_append]
        rfl
    queue := by rw [hleft, List.reverse_reverse]
    idle := fun c' hc' => by
      rw [driven_cons (by simp)]
      refine h.idle c' ?_
      rw [hleft] at hc'
      rw [hunfiled]
      exact List.mem_append_left _ hc'
    known := fun c' hc' => h.known c' ((driven_cons (by simp)).mp hc') }

/-- Whoever is driven is filed as soon as it is asleep. -/
theorem slept (h : Tidy started adrift contexts log) (hdriven : Driven started id log)
    (n t : UInt64) :
    Tidy started adrift contexts (.filed id t :: .stopped id (.deferred (.ticks n)) :: log) := by
  have habsent : id ∉ unfiled log := fun hid => h.idle id hid hdriven
  have hleft : unfiled (.filed id t :: .stopped id (.deferred (.ticks n)) :: log) =
      unfiled log := by
    rw [unfiled, unfiled, List.filter_cons_of_neg (by simp), List.filter_eq_self.mpr fun x hx => ?_]
    simpa using ne_of_mem_of_not_mem hx habsent
  have hsame (c : ContextId) :
      Driven started c (.filed id t :: .stopped id (.deferred (.ticks n)) :: log) ↔
      Driven started c log := by
    rw [driven_cons (by simp), driven_cons (by simp)]
  exact {
    orderly := by
      refine ⟨⟨h.orderly, h.heeds (by simp)⟩, fun c' n' hhead _ => ?_, fun c' t' heq => Or.inl ?_⟩
      · cases hhead
        exact ⟨t, rfl⟩
      · cases heq
        exact (driven_cons (by simp)).mpr hdriven
    queue := by rw [hleft, h.queue]
    idle := fun c' hc' => by
      rw [hsame]
      exact h.idle c' (hleft ▸ hc')
    known := fun c' hc' => h.known c' ((hsame c').mp hc') }

/-- Whoever is taken up again is driven from then on. -/
theorem resumed (h : Tidy started adrift contexts log) (habsent : id ∉ unfiled log)
    (hknown : id ≤ contexts) :
    Tidy started adrift contexts (.resumed id :: log) where
  orderly := ⟨h.orderly, h.heeds (by simp)⟩
  queue := h.queue
  idle c hc hdriven := by
    refine h.idle c hc (hdriven.imp_right fun hm =>
      (List.mem_cons.mp hm).resolve_left fun heq => ?_)
    cases heq
    exact habsent hc
  known c hc := by
    obtain hstarted | hm := hc
    · exact h.known c (Or.inl hstarted)
    · obtain heq | hm := List.mem_cons.mp hm
      · cases heq
        exact hknown
      · exact h.known c (Or.inr hm)

/-- Nothing has been said of contexts that are started from now on. -/
theorem extend (h : Tidy started adrift contexts log) (hnew : ∀ s, .stopped id s ∉ log)
    (hknown : id ≤ contexts) :
    Tidy (started ++ [id]) adrift contexts log := by
  have hmore {c : ContextId} {log : List Milestone} (hdriven : Driven started c log) :
      Driven (started ++ [id]) c log :=
    hdriven.imp_left fun hc => List.mem_append_left _ hc
  have hless {c : ContextId} {log : List Milestone} (hne : c ≠ id)
      (hdriven : Driven (started ++ [id]) c log) :
      Driven started c log :=
    hdriven.imp_left fun hc => (List.mem_append.mp hc).resolve_right (by simpa using hne)
  exact {
    orderly := by
      have horderly := h.orderly
      clear h
      induction log with
      | nil => trivial
      | cons m log ih =>
        refine ⟨ih (fun s hs => hnew s (List.mem_cons_of_mem _ hs)) horderly.1, ?_, ?_⟩
        · intro c n hhead hdriven
          refine horderly.2.prompt c n hhead (hless ?_ hdriven)
          rintro rfl
          exact hnew _ (List.mem_cons_of_mem _ (List.mem_of_head? hhead))
        · intro c t heq
          exact (horderly.2.turn c t heq).imp_left hmore
    queue := h.queue
    idle := fun c hc hdriven => by
      by_cases hne : c = id
      · obtain ⟨n, hm⟩ := stopped_of_unfiled hc
        exact hnew _ (hne ▸ hm)
      · exact h.idle c hc (hless hne hdriven)
    known := fun c hc => by
      by_cases hne : c = id
      · exact hne ▸ hknown
      · exact h.known c (hless hne hc) }

end Tidy

namespace Scheduler

variable {started : List ContextId} {active : List ContextId} {s s' : Scheduler} {rt rt' : Runtime}

theorem parkAll_tidy {fuel : Nat} {adrift : List Context}
    (hpark : s.parkAll fuel adrift rt = .ok s' rt')
    (hledger : Ledger active adrift s rt.contexts rt.chronicle)
    (h : Tidy started adrift rt.contexts rt.chronicle) :
    Tidy started [] rt'.contexts rt'.chronicle := by
  induction adrift generalizing s rt with
  | nil =>
    cases hpark
    exact h
  | cons c adrift ih =>
    obtain ⟨_, ⟨w, hw⟩, _⟩ := hledger.floats c List.mem_cons_self
    obtain ⟨s₁, rt₁, hfirst, hpark⟩ := Act.of_bind_eq_ok hpark
    obtain ⟨hledger₁, _⟩ := (park_adrift fuel rt (p := { context := c }) .null hledger).of_ok hfirst
    refine ih hpark hledger₁ ?_
    cases w with
    | ticks n =>
      simp only [park, hw] at hfirst
      obtain ⟨_, hfirst⟩ := Act.of_need hfirst
      cases hfirst
      exact h.adopted hw (fun d hd => (hledger.ne_of_adrift (p := { context := c }) hd).symm) _
    | external =>
      simp only [park, hw] at hfirst
      cases hfirst
      have hawake : c.sleeper? = none := by rw [Context.sleeper?, hw]
      exact { h with queue := by rw [← h.queue, List.filterMap_cons_none hawake] }

theorem adopt_tidy (fuel : Nat) (hbooks : Books active s rt) (h : rt.IsTidy started) :
    (s.adopt fuel rt).Gives fun _ rt' => rt'.IsTidy started := by
  have hadopts := adopt_spec fuel hbooks
  refine (hadopts.and hadopts.result).mono fun s' rt' ⟨⟨_, hsettled, _⟩, hadopt⟩ => ?_
  rw [Runtime.IsTidy, hsettled]
  exact parkAll_tidy hadopt hbooks h

theorem completion_tidy (fuel : Nat) (k : Completion) (id : ContextId) (v : Value)
    (h : rt.IsTidy started) :
    (k.run fuel id v rt).Gives fun _ rt' => rt'.IsTidy started :=
  (Completion.run_gives (Tidies.perform fuel (k v)) rt).mono fun _ _ htidies =>
    htidies (h.pass (by simp) (by simp) rfl)

/-- Whoever is driven and goes to sleep is filed there and then. -/
theorem park_tidy (fuel : Nat) {p : Parked} (v : Value) (h : rt.IsTidy started)
    (hdriven : Driven started p.context.id rt.chronicle) :
    (s.park fuel p v (rt.record (.stopped p.context.id p.context.state))).Gives fun _ rt' =>
      rt'.IsTidy started := by
  cases hstate : p.context.state with
  | deferred w =>
    cases w with
    | ticks n =>
      simp only [park, hstate]
      rw [Act.need_bind]
      split
      · exact Runtime.recording_gives (h.slept hdriven n _)
      · trivial
    | external =>
      simp only [park, hstate]
      exact h.pass (by simp) (by simp) rfl
  | ready | returned | faulted why =>
    have hstopped : (rt.record (.stopped p.context.id p.context.state)).IsTidy started := by
      rw [hstate]
      exact h.pass (by simp) (by simp) rfl
    simp only [park, hstate]
    rw [hstate] at hstopped
    cases p.completion with
    | none => exact hstopped
    | some k => exact Act.gives_bind (completion_tidy fuel k _ v hstopped) fun _ _ h => h

theorem drive_tidy (fuel : Nat) {p : Parked} (hbooks : Books (p.context.id :: active) s rt)
    (h : rt.IsTidy started) (hdriven : Driven started p.context.id rt.chronicle) :
    (s.drive fuel p rt).Gives fun _ rt' => rt'.IsTidy started := by
  have hresumed := Act.Preserves.gives (R := Tidies started) (Tidies.resume fuel p.context)
    (Context.resume_isLawful fuel p.context rt)
  refine Act.gives_bind hresumed fun ⟨v, c⟩ rt₁ ⟨⟨hkeeps, hid, hready⟩, htidies⟩ => ?_
  dsimp only at hid hready
  have hran : Books (c.id :: active) s rt₁ := hid ▸ hkeeps.books _ s hbooks
  have hdriven₁ : Driven started c.id rt₁.chronicle := by rwa [hkeeps.driven_iff, hid]
  have hparked := (park_delivers fuel (q := { p with context := c }) v hready hran).and
    (park_tidy fuel (p := { p with context := c }) (s := s) v (htidies h) hdriven₁)
  refine Runtime.recording_gives ?_
  exact Act.gives_bind hparked fun s₂ rt₂ ⟨⟨hbooks₂, _⟩, h₂⟩ => adopt_tidy fuel hbooks₂ h₂

theorem rouse_tidy (fuel : Nat) {p : Parked}
    (hbooks : Books [p.context.id] { s with parked := s.parked.erase p.context.id }
      (rt.record (.resumed p.context.id))) (h : rt.IsTidy started) :
    (s.rouse fuel p rt).Gives fun _ rt' => rt'.IsTidy started := by
  have hrunning := (hbooks.runs p.context.id).mpr List.mem_cons_self
  have habsent : p.context.id ∉ unfiled rt.chronicle := by
    intro hid
    obtain ⟨d, hd, hsame, _⟩ := h.mem_of_unfiled hid
    have hstopped := (hbooks.floats d hd).1
    rw [hsame, hrunning] at hstopped
    cases hstopped
  have hknown : p.context.id ≤ rt.contexts := hbooks.known _ .running hrunning
  exact Runtime.recording_gives (drive_tidy fuel hbooks (h.resumed habsent hknown)
    (Or.inr List.mem_cons_self))

theorem callAsync_tidy (fuel : Nat) (p : ProcRef) (i : Invocation) (completion : Option Completion)
    (hbooks : Books [] s rt) (h : rt.IsTidy started) :
    (s.callAsync fuel p i completion rt).Gives fun q rt' =>
      q.1 = rt.contexts + 1 ∧ rt'.IsTidy (started ++ [rt.contexts + 1]) := by
  have hnew (s : ContextState) : .stopped (rt.contexts + 1) s ∉ rt.newContext.2.chronicle := by
    intro hm
    obtain hm := (List.mem_cons.mp hm).resolve_left (by simp)
    obtain ⟨later, earlier, heq⟩ := List.append_of_mem hm
    have hlawful := hbooks.lawful
    rw [heq] at hlawful
    have hcreated :=
      (standing_isSome_iff hlawful.of_append.1).mp (by rw [hlawful.of_append.2.1]; rfl)
    have hsome := (standing_isSome_iff hbooks.lawful).mpr
      (heq ▸ List.mem_append_right _ (List.mem_cons_of_mem _ hcreated))
    rw [hbooks.new] at hsome
    cases hsome
  have hcreated : rt.newContext.2.IsTidy (started ++ [rt.contexts + 1]) :=
    ((h.mono (Nat.le_succ rt.contexts)).pass (by simp) (by simp) rfl).extend hnew (Nat.le_refl _)
  have hopened : (rt.opened p i).2.IsTidy (started ++ [rt.contexts + 1]) :=
    Tidies.carried.activate rt.newContext.2 p rt.newContext.1.id i hcreated
  rw [callAsync_eq]
  by_cases hdepth : rt.maxDepth = 0
  · rw [if_pos hdepth]
    have hrefused : (rt.refused p i).IsTidy (started ++ [rt.contexts + 1]) :=
      hopened.pass (by simp) (by simp) rfl
    cases completion with
    | none => exact ⟨rfl, hrefused⟩
    | some k => exact Act.gives_bind (completion_tidy fuel k _ .null hrefused) fun _ _ h => ⟨rfl, h⟩
  · rw [if_neg hdepth]
    have hdriven : Driven (started ++ [rt.contexts + 1])
        (rt.opened p i).1.id (rt.opened p i).2.chronicle :=
      Or.inl (List.mem_append_right _ List.mem_cons_self)
    have hbooks' := (Keeps.opened rt p i).books [(rt.opened p i).1.id] s hbooks.created
    exact Act.gives_bind
      (drive_tidy fuel (p := { context := (rt.opened p i).1, completion }) hbooks' hopened hdriven)
      fun _ _ h => ⟨rfl, h⟩

theorem wake_tidy (fuel : Nat) (id : ContextId) (hbooks : Books [] s rt) (h : rt.IsTidy started) :
    (s.wake fuel id rt).Gives fun _ rt' => rt'.IsTidy started := by
  simp only [wake]
  cases hp : s.parked[id]? with
  | none => exact h
  | some p =>
    dsimp only
    split <;> rename_i hstate
    · obtain ⟨rfl, _⟩ := hbooks.parked id p hp
      exact Act.gives_bind (rouse_tidy fuel (hbooks.woken hp hstate) h) fun _ _ h => h
    · exact h

theorem advance_tidy (fuel : Nat) (hbooks : Books [] s rt) (hcalm : Calm rt.chronicle)
    (h : rt.IsTidy started) :
    (s.advance fuel rt).Gives fun _ rt' => rt'.IsTidy started := by
  have hopened := (opens fuel hbooks hcalm).and (adopt_tidy fuel hbooks h)
  refine Act.gives_bind hopened fun s₁ rt₁ ⟨hopens, h₁⟩ => Runtime.recording_gives ?_
  exact resumeDue_keeps (P := fun _ rt => rt.IsTidy started) (fun _ _ _ h => h)
    (fun fuel s rt p h _ hbooks => rouse_tidy fuel hbooks h) fuel 0 (h₁.pass (by simp)
      (by simp) rfl) hopens.books
    hopens.settled

end Scheduler

namespace Host

variable {h h' : Host} {e : Episode} {episodes : List Episode} {before : List ContextId}

/-- Every operation leaves things tidy, whatever context it starts. -/
theorem tidy_perform {fuel : Nat} {op : Operation} (hin : h.InOrder)
    (htidy : h.runtime.IsTidy before) (hperform : h.perform fuel op = some (e, h')) :
    h'.runtime.IsTidy (before ++ e.started?.toList) := by
  let Q (e : Episode) (h' : Host) : Prop := h'.runtime.IsTidy (before ++ e.started?.toList)
  have hcall : ∀ p i, Act.Preserves (Tidies before) (Runtime.callWith (Context.resume fuel) p i) :=
    Tidies.call fuel
  have hleft {α : Type} {x : Act Runtime α} (hx : Act.Preserves (Tidies before) x) (f : α → Answer)
      (hact : op.act fuel h.scheduler = x >>= fun a => Pure.pure (f a, h.scheduler))
      (hnobody : ∀ answer h', (h.episode op answer h').started? = none) : Q e h' := by
    refine of_preserves (Q := Q) hx f hact (fun answer rt htidies => ?_) hperform
    show Runtime.IsTidy (before ++ Option.toList _) rt
    rw [hnobody, Option.toList_none, List.append_nil]
    exact htidies htidy
  have hstart (p : ProcRef) (i : Invocation) (completion : Option Completion)
      (hact : op.act fuel h.scheduler =
        h.scheduler.callAsync fuel p i completion >>= fun q => Pure.pure (.context q.1, q.2))
      (hstarted : ∀ c h', (h.episode op (.ok (.context c)) h').started? = some c) : Q e h' := by
    refine of_start (Q := Q) hact ?_ hperform
    refine (Scheduler.callAsync_tidy fuel p i completion hin.books htidy).mono fun q rt hcalled =>
      ?_
    obtain ⟨hid, h⟩ := hcalled
    show Runtime.IsTidy (before ++ Option.toList _) rt
    rw [hstarted, hid]
    exact h
  cases op with
  | run p i => exact hleft (hcall p i) _ rfl fun _ _ => rfl
  | callOn o name arguments usr =>
    exact hleft ((Carried.ask _).bind fun p => hcall p _) _ rfl fun _ _ => rfl
  | newObject path arguments usr =>
    exact hleft (Tidies.carried.serve hcall fuel (.construct path arguments usr)) _ rfl fun _ _ =>
      rfl
  | spawn p i => exact hstart p i none rfl fun _ _ => rfl
  | callAsync p i completion => exact hstart p i completion rfl fun _ _ => rfl
  | wake c =>
    refine of_gives (Q := Q)
      (Act.gives_bind (Scheduler.wake_tidy fuel c hin.books htidy) fun q rt h => ?_) hperform
    show Runtime.IsTidy (before ++ []) rt
    rwa [List.append_nil]
  | tick =>
    refine of_gives (Q := Q)
      (Act.gives_bind (Scheduler.advance_tidy fuel hin.books hin.calm htidy) fun q rt h => ?_)
      hperform
    show Runtime.IsTidy (before ++ []) rt
    rwa [List.append_nil]

/-- The contexts that episodes have started. -/
def started (episodes : List Episode) : List ContextId := episodes.filterMap Episode.started?

theorem Runs.tidy (hin : h.InOrder) (htidy : h.runtime.IsTidy before)
    (hruns : h.Runs episodes h') : h'.runtime.IsTidy (before ++ started episodes) := by
  induction hruns generalizing before with
  | nil h => simpa [started] using htidy
  | @cons fuel h h₁ h' op e episodes hperform hrest ih =>
    have htidy := ih (Host.passes hin hperform).inOrder (tidy_perform hin htidy hperform)
    have hsame : before ++ e.started?.toList ++ started episodes =
        before ++ started (e :: episodes) := by
      rw [started, started, List.append_assoc, List.filterMap_cons]
      cases e.started? <;> rfl
    rwa [hsame] at htidy

theorem IsFresh.tidy (hfresh : h.IsFresh) : h.runtime.IsTidy [] := by
  rw [Runtime.IsTidy, hfresh.detached, hfresh.chronicle]
  exact Tidy.start _

end Host

end ProcEngine
