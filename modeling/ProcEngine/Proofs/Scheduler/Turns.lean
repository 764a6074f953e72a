import ProcEngine.Proofs.Scheduler.Bookkeeping
/-!
# The scheduler keeps the books

What each operation of the scheduler does to the books and to the chronicle. Parking and driving
move nothing on; a turn takes one context up and drives it; a tick moves the counter on and gives
every sleeper that is due its turn.
-/

namespace ProcEngine

open Chronicle

/-- What may be noted without anybody being taken up again and without time passing. -/
def Milestone.IsQuiet : Milestone → Prop
  | .resumed _ | .ticked _ => False
  | _ => True

def Milestone.IsFiling : Milestone → Prop
  | .filed .. => True
  | _ => False

theorem Milestone.IsRun.isQuiet {m : Milestone} (h : m.IsRun) : m.IsQuiet := by
  cases m with
  | created c | stopped c s => trivial
  | filed c t | completed c v | resumed c | ticked t => exact h.elim

theorem Milestone.IsFiling.isQuiet {m : Milestone} (h : m.IsFiling) : m.IsQuiet := by
  cases m with
  | filed c t => trivial
  | created c | stopped c s | completed c v | resumed c | ticked t => exact h.elim

def Milestone.isResumption : Milestone → Bool
  | .resumed _ => true
  | _ => false

/-- Time stands still, and none but sleepers are taken up again. -/
def Chronicle.Turns (earlier : List Milestone) : List Milestone → Prop
  | [] => True
  | .resumed c :: log => Turns earlier log ∧ ∃ w, wakes c (log ++ earlier) = some w
  | .ticked _ :: _ => False
  | _ :: log => Turns earlier log

namespace Chronicle

variable {log later earlier : List Milestone}

theorem Turns.append (hlater : Turns (log ++ earlier) later) (hlog : Turns earlier log) :
    Turns earlier (later ++ log) := by
  induction later with
  | nil => exact hlog
  | cons m later ih =>
    cases m with
    | resumed c =>
      obtain ⟨hlater, hw⟩ := hlater
      rw [← List.append_assoc] at hw
      exact ⟨ih hlater, hw⟩
    | ticked t => exact hlater
    | _ => exact ih hlater

theorem Turns.still (h : Turns earlier log) : Still log := by
  induction log with
  | nil => simp [Still]
  | cons m log ih =>
    intro t ht
    cases m with
    | ticked t' => exact h
    | resumed c => exact ih h.1 t (by simpa using ht)
    | _ => exact ih h t (by simpa using ht)

theorem Turns.of_quiet (h : ∀ m ∈ log, m.IsQuiet) : Turns earlier log := by
  induction log with
  | nil => trivial
  | cons m log ih =>
    have hbefore := ih fun m hm => h m (List.mem_cons_of_mem _ hm)
    have hm := h m List.mem_cons_self
    cases m with
    | resumed c | ticked t => exact hm.elim
    | _ => exact hbefore

theorem Still.of_quiet (h : ∀ m ∈ log, m.IsQuiet) : Still log := fun t ht => h (.ticked t) ht

theorem Turns.wakes {c : ContextId} (h : Turns earlier (later ++ .resumed c :: log)) :
    ∃ w, wakes c (log ++ earlier) = some w := by
  induction later with
  | nil => exact h.2
  | cons m later ih =>
    cases m with
    | resumed c' => exact ih h.1
    | ticked t => exact h.elim
    | _ => exact ih h

end Chronicle

/-- What becomes of a scheduler and a runtime while time stands still and nothing but `P` is
noted. -/
structure Adds (P : Milestone → Prop) (s : Scheduler) (rt : Runtime) (s' : Scheduler)
    (rt' : Runtime) : Prop where
  tick : s'.tick = s.tick
  depth : rt'.maxDepth = rt.maxDepth
  adds : ∃ log, rt'.chronicle = log ++ rt.chronicle ∧ ∀ m ∈ log, P m

namespace Adds

variable {P Q : Milestone → Prop} {s s' s'' : Scheduler} {rt rt' rt'' : Runtime}

theorem refl (s : Scheduler) (rt : Runtime) : Adds P s rt s rt := ⟨rfl, rfl, [], rfl, by simp⟩

theorem trans (h : Adds P s rt s' rt') (h' : Adds P s' rt' s'' rt'') : Adds P s rt s'' rt'' where
  tick := h'.tick.trans h.tick
  depth := h'.depth.trans h.depth
  adds := by
    obtain ⟨log, hlog, hp⟩ := h.adds
    obtain ⟨log', hlog', hp'⟩ := h'.adds
    refine ⟨log' ++ log, by rw [hlog', hlog, List.append_assoc], fun m hm => ?_⟩
    exact (List.mem_append.mp hm).elim (hp' m) (hp m)

theorem mono (h : Adds P s rt s' rt') (hpq : ∀ m, P m → Q m) : Adds Q s rt s' rt' where
  tick := h.tick
  depth := h.depth
  adds := by
    obtain ⟨log, hlog, hp⟩ := h.adds
    exact ⟨log, hlog, fun m hm => hpq m (hp m hm)⟩

theorem of_keeps (s : Scheduler) (h : Keeps rt rt') : Adds Milestone.IsQuiet s rt s rt' where
  tick := rfl
  depth := h.depth
  adds := by
    obtain ⟨log, hlog, hrun⟩ := h.adds
    exact ⟨log, hlog, fun m hm => (hrun m hm).isQuiet⟩

theorem record (s : Scheduler) (rt : Runtime) {m : Milestone} (hm : P m) :
    Adds P s rt s (rt.record m) :=
  ⟨rfl, rfl, [m], rfl, by simpa using hm⟩

end Adds

theorem Runtime.recording_gives {β : Type} {Q : β → Runtime → Prop} {rt : Runtime} {m : Milestone}
    {f : Unit → Act Runtime β} (h : (f () (rt.record m)).Gives Q) :
    ((Runtime.recording m >>= f) rt).Gives Q := h

namespace Scheduler

variable {active : List ContextId} {s : Scheduler} {rt : Runtime}

/-! ### Parking -/

/-- A context that is adrift is parked, and nothing runs. -/
theorem park_adrift (fuel : Nat) (rt : Runtime) {p : Parked} {adrift : List Context} (v : Value)
    (h : Ledger active (p.context :: adrift) s rt.contexts rt.chronicle) :
    (s.park fuel p v rt).Gives fun s' rt' => Ledger active adrift s' rt'.contexts rt'.chronicle ∧
      rt'.detached = rt.detached ∧ Adds Milestone.IsFiling s rt s' rt' := by
  obtain ⟨_, ⟨w, hw⟩, _⟩ := h.floats p.context List.mem_cons_self
  simp only [park, hw]
  cases w with
  | ticks n =>
    dsimp only
    rw [Act.need_bind]
    split
    · rename_i hrange
      refine ⟨h.sleeping hw hrange, rfl, rfl, rfl, [.filed p.context.id (.ofNat (s.due n))], rfl,
        ?_⟩
      simp [Milestone.IsFiling]
    · trivial
  | external => exact ⟨h.waiting hw, rfl, rfl, rfl, [], rfl, by simp⟩

/-- A context that is finished is not parked. -/
theorem park_eq (fuel : Nat) (s : Scheduler) {p : Parked} (hfinished : p.context.isFinished)
    (v : Value) :
    s.park fuel p v = (match p.completion with
      | some completion => do
        completion.run fuel p.context.id v
        return s
      | none => Pure.pure s) := by
  obtain ⟨⟨id, maxDepth, stack, state⟩, completion⟩ := p
  cases state with
  | returned | faulted why => rfl
  | ready | deferred w => cases hfinished

theorem park_finished (fuel : Nat) (rt : Runtime) {p : Parked} (hfinished : p.context.isFinished)
    (v : Value) (h : Books active s rt)
    (hends : rt.chronicle.head? = some (.stopped p.context.id p.context.state)) :
    (s.park fuel p v rt).Gives fun s' rt' => s' = s ∧ Books active s rt' ∧
      Adds Milestone.IsQuiet s rt s rt' := by
  rw [park_eq fuel s hfinished v]
  cases p.completion with
  | none => exact ⟨rfl, h, Adds.refl s rt⟩
  | some completion =>
    have hcompleted : Books active s (rt.record (.completed p.context.id v)) :=
      Ledger.completed h ⟨_, hends, Context.state_of_finished hfinished⟩
    refine Act.gives_bind (Keeping.completion fuel completion p.context.id v rt) fun _ rt' hkept =>
      ?_
    exact ⟨rfl, hkept.books active s hcompleted,
      (Adds.record s rt trivial).trans (Adds.of_keeps s hkept)⟩

theorem parkAll_adrift (fuel : Nat) (rt : Runtime) (adrift : List Context)
    (h : Ledger active adrift s rt.contexts rt.chronicle) :
    (s.parkAll fuel adrift rt).Gives fun s' rt' => Ledger active [] s' rt'.contexts rt'.chronicle ∧
      rt'.detached = rt.detached ∧ Adds Milestone.IsFiling s rt s' rt' := by
  induction adrift generalizing s rt with
  | nil => exact ⟨h, rfl, Adds.refl s rt⟩
  | cons c adrift ih =>
    refine Act.gives_bind (park_adrift fuel rt .null h) fun s₁ rt₁ ⟨h₁, hdetached₁, hadds₁⟩ => ?_
    refine (ih rt₁ h₁).mono fun s₂ rt₂ ⟨h₂, hdetached₂, hadds₂⟩ => ?_
    exact ⟨h₂, hdetached₂.trans hdetached₁, hadds₁.trans hadds₂⟩

theorem adopt_spec (fuel : Nat) (h : Books active s rt) :
    (s.adopt fuel rt).Gives fun s' rt' => Books active s' rt' ∧ rt'.detached = #[] ∧
      Adds Milestone.IsFiling s rt s' rt' := by
  refine (parkAll_adrift fuel rt.takeDetached.2 rt.detached.toList h).mono
    fun s' rt' ⟨h', hdetached, hadds⟩ => ?_
  have hsettled : rt'.detached = #[] := hdetached
  refine ⟨?_, hsettled, hadds.tick, hadds.depth, hadds.adds⟩
  rw [Books, hsettled]
  exact h'

/-! ### Taking over -/

/-- With nobody adrift there is nobody to take over. -/
theorem adopt_settled (fuel : Nat) (s : Scheduler) (hsettled : rt.detached = #[]) :
    s.adopt fuel rt = .ok s rt := by
  have htaken : rt.takeDetached = ([], rt) := by
    rw [Runtime.takeDetached, hsettled]
    cases rt
    cases hsettled
    rfl
  simp only [adopt, Act.bind_apply, Act.get_apply, Act.set_apply, htaken]
  rfl

/-- The context sleeps past the last tick that can be counted. -/
def Oversleeps (s : Scheduler) (c : Context) : Prop :=
  ∃ n, c.state = .deferred (.ticks n) ∧ UInt64.size ≤ s.due n

theorem oversleeps_congr {s' : Scheduler} (htick : s'.tick = s.tick) (c : Context) :
    s'.Oversleeps c ↔ s.Oversleeps c := by
  simp only [Oversleeps, due, htick]

theorem Oversleeps.park_eq {p : Parked} (h : s.Oversleeps p.context) (fuel : Nat) (v : Value)
    (rt : Runtime) :
    s.park fuel p v rt = .breach .addOverflow rt := by
  obtain ⟨n, hstate, hlate⟩ := h
  simp only [park, hstate]
  rw [Act.need_bind, if_neg (Nat.not_lt.mpr hlate)]

/-- Who is parked in time and has nobody to hear of its end changes nothing but the chronicle. -/
theorem park_untold (fuel : Nat) {c : Context} (hintime : ¬ s.Oversleeps c) (v : Value)
    (rt : Runtime) :
    ∃ s' rt', s.park fuel { context := c } v rt = .ok s' rt' ∧ s'.tick = s.tick ∧
      rt'.store = rt.store ∧
      rt'.detached = rt.detached := by
  simp only [park]
  cases hstate : c.state with
  | deferred w =>
    cases w with
    | ticks n =>
      have hrange : s.due n < UInt64.size := Nat.not_le.mp fun hlate => hintime ⟨n, hstate, hlate⟩
      dsimp only
      rw [Act.need_bind, if_pos hrange]
      exact ⟨_, _, rfl, rfl, rfl, rfl⟩
    | external => exact ⟨_, _, rfl, rfl, rfl, rfl⟩
  | ready | returned | faulted why => exact ⟨_, _, rfl, rfl, rfl, rfl⟩

theorem parkAll_untold (fuel : Nat) (s : Scheduler) (contexts : List Context) (rt : Runtime) :
    (∀ c ∈ contexts, ¬ s.Oversleeps c) ∧
        (∃ s' rt', s.parkAll fuel contexts rt = .ok s' rt' ∧ rt'.store = rt.store ∧
          rt'.detached = rt.detached) ∨
      (∃ c ∈ contexts, s.Oversleeps c) ∧
        ∃ rt', s.parkAll fuel contexts rt = .breach .addOverflow rt' ∧ rt'.store = rt.store := by
  induction contexts generalizing s rt with
  | nil => exact Or.inl ⟨by simp, s, rt, rfl, rfl, rfl⟩
  | cons c contexts ih =>
    simp only [parkAll, Act.bind_apply]
    by_cases hlate : s.Oversleeps c
    · rw [Oversleeps.park_eq (p := { context := c }) hlate]
      exact Or.inr ⟨⟨c, List.mem_cons_self, hlate⟩, rt, rfl, rfl⟩
    -- Parking one of them leaves the counter, and with it the others, as they were.
    · obtain ⟨s₁, rt₁, hpark, htick, hstore, hdetached⟩ := park_untold fuel hlate .null rt
      have hsame := oversleeps_congr htick
      rw [hpark]
      obtain ⟨hintime, s₂, rt₂, hrest, hstore', hdetached'⟩
        | ⟨⟨c', hc', hlate'⟩, rt₂, hrest, hstore'⟩ := ih s₁ rt₁
      · refine Or.inl ⟨List.forall_mem_cons.mpr ⟨hlate, fun c' hc' => ?_⟩, s₂, rt₂, hrest,
          hstore'.trans hstore, hdetached'.trans hdetached⟩
        exact mt (hsame c').mpr (hintime c' hc')
      · exact Or.inr ⟨⟨c', List.mem_cons_of_mem _ hc', (hsame c').mp hlate'⟩, rt₂, hrest,
          hstore'.trans hstore⟩

/-- Whoever is adrift is taken over, and nothing runs, unless one of them oversleeps. -/
theorem adopt_untold (fuel : Nat) (s : Scheduler) (rt : Runtime) :
    (∀ c ∈ rt.detached, ¬ s.Oversleeps c) ∧
        (∃ s' rt', s.adopt fuel rt = .ok s' rt' ∧ rt'.store = rt.store ∧ rt'.detached = #[]) ∨
      (∃ c ∈ rt.detached, s.Oversleeps c) ∧
        ∃ rt', s.adopt fuel rt = .breach .addOverflow rt' ∧ rt'.store = rt.store := by
  have hparked := parkAll_untold fuel s rt.detached.toList rt.takeDetached.2
  simp only [Array.mem_toList_iff] at hparked
  exact hparked

theorem Oversleeps.adopt_eq {c : Context} (h : s.Oversleeps c) (hc : c ∈ rt.detached) (fuel : Nat) :
    ∃ rt', s.adopt fuel rt = .breach .addOverflow rt' := by
  obtain ⟨hintime, _⟩ | ⟨_, rt', hbreach, _⟩ := adopt_untold fuel s rt
  · exact absurd h (hintime c hc)
  · exact ⟨rt', hbreach⟩

/-! ### Driving -/

/-- What becomes of a scheduler and a runtime until everybody who is adrift has been parked. -/
structure Settles (active : List ContextId) (s : Scheduler) (rt : Runtime) (s' : Scheduler)
    (rt' : Runtime) : Prop where
  books : Books active s' rt'
  settled : rt'.detached = #[]
  quiet : Adds Milestone.IsQuiet s rt s' rt'

theorem adopt_gives (fuel : Nat) {s₀ : Scheduler} {rt₀ : Runtime} (h : Books active s rt)
    (hquiet : Adds Milestone.IsQuiet s₀ rt₀ s rt) :
    (s.adopt fuel rt).Gives (Settles active s₀ rt₀) := by
  refine (adopt_spec fuel h).mono fun s' rt' ⟨hbooks, hsettled, hadds⟩ => ?_
  exact ⟨hbooks, hsettled, hquiet.trans (hadds.mono fun _ => Milestone.IsFiling.isQuiet)⟩

/-- The context that is driven stops, and whatever is adrift then is parked. -/
theorem drive_gives (fuel : Nat) {p : Parked} (h : Books (p.context.id :: active) s rt) :
    (s.drive fuel p rt).Gives (Settles active s rt) := by
  refine Act.gives_bind (Context.resume_isLawful fuel p.context rt) fun q rt₁ hdriven => ?_
  obtain ⟨v, c⟩ := q
  obtain ⟨hkept, hid, hready⟩ := hdriven
  dsimp only at hid hready
  have hran : Books (c.id :: active) s rt₁ := hid ▸ hkept.books _ s h
  have hstopped := hran.stopped hready
  have hquiet : Adds Milestone.IsQuiet s rt s (rt₁.record (.stopped c.id c.state)) :=
    (Adds.of_keeps s hkept).trans (Adds.record s rt₁ trivial)
  refine Runtime.recording_gives ?_
  cases hfinished : c.isFinished with
  | false =>
    rw [hfinished, if_neg (by simp)] at hstopped
    have hparked :=
      park_adrift fuel (rt₁.record (.stopped c.id c.state))
        (p := { p with context := c }) v hstopped
    refine Act.gives_bind hparked fun s₂ rt₂ ⟨h₂, hdetached, hadds₂⟩ => ?_
    have hbooks₂ : Books active s₂ rt₂ := by
      rw [Books, hdetached]
      exact h₂
    exact adopt_gives fuel hbooks₂ (hquiet.trans (hadds₂.mono fun _ => Milestone.IsFiling.isQuiet))
  | true =>
    rw [hfinished, if_pos rfl] at hstopped
    have hparked :=
      park_finished fuel (rt₁.record (.stopped c.id c.state)) (p := { p with context := c })
      hfinished v hstopped rfl
    refine Act.gives_bind hparked fun s₂ rt₂ hgiven => ?_
    obtain ⟨hsame, hbooks₂, hadds₂⟩ := hgiven
    subst hsame
    exact adopt_gives fuel hbooks₂ (hquiet.trans hadds₂)

/-! ### Starting -/

/-- Whatever is started stops again. Nothing can be started that holds no activation, and then
nothing is adrift. -/
theorem callAsync_gives (fuel : Nat) (p : ProcRef) (i : Invocation) (completion : Option Completion)
    (h : Books [] s rt) (hshallow : rt.maxDepth = 0 → rt.detached = #[]) :
    (s.callAsync fuel p i completion rt).Gives fun q rt' => Settles [] s rt q.2 rt' := by
  have hcreated : Adds Milestone.IsQuiet s rt s rt.newContext.2 :=
    ⟨rfl, rfl, [.created (rt.contexts + 1)], rfl, by simp [Milestone.IsQuiet]⟩
  have hentered := Keeps.opened rt p i
  rw [callAsync_eq]
  by_cases hdepth : rt.maxDepth = 0
  · rw [if_pos hdepth]
    let ended : Context := { rt.newContext.1 with state := .faulted (.stackOverflow rt.maxDepth) }
    have hran :=
      hentered.trans (Keeps.tell _ (.fault (rt.contexts + 1) (.stackOverflow rt.maxDepth) []))
    have hstopped := (hran.books [ended.id] s h.created).stopped (by simp [ended])
    have hquiet := (hcreated.trans (Adds.of_keeps s hran)).trans
      (Adds.record s _ (m := .stopped ended.id ended.state) trivial)
    have hsettled : (rt.refused p i).detached = #[] := (hran.shallow hdepth).trans (hshallow hdepth)
    cases completion with
    | none => exact ⟨hstopped, hsettled, hquiet⟩
    | some completion =>
      have hcompleted : Books [] s ((rt.refused p i).record (.completed (rt.contexts + 1) .null)) :=
        Ledger.completed hstopped ⟨_, rfl, Or.inr ⟨_, rfl⟩⟩
      refine Act.gives_bind (Keeping.completion fuel completion _ .null _) fun _ rt₃ hkept => ?_
      exact {
        books := hkept.books [] s hcompleted
        settled := (hkept.shallow (hran.depth.trans hdepth)).trans hsettled
        quiet := hquiet.trans ((Adds.record s _ trivial).trans (Adds.of_keeps s hkept)) }
  · rw [if_neg hdepth]
    have hbooks := hentered.books [(rt.opened p i).1.id] s h.created
    refine Act.gives_bind (drive_gives fuel hbooks) fun s' rt' hsettles => ?_
    exact ⟨hsettles.books, hsettles.settled,
      (hcreated.trans (Adds.of_keeps s hentered)).trans hsettles.quiet⟩

/-! ### Turns -/

/-- A context that is taken up again runs until it stops and is parked again. -/
theorem rouse_gives (fuel : Nat) {p : Parked}
    (h : Books [p.context.id] { s with parked := s.parked.erase p.context.id }
      (rt.record (.resumed p.context.id))) :
    (s.rouse fuel p rt).Gives (Settles [] s (rt.record (.resumed p.context.id))) := by
  refine Runtime.recording_gives ((drive_gives fuel h).mono fun s' rt' hsettles => ?_)
  exact ⟨hsettles.books, hsettles.settled, hsettles.quiet.tick, hsettles.quiet.depth,
    hsettles.quiet.adds⟩

theorem wake_gives (fuel : Nat) (id : ContextId) (h : Books [] s rt) :
    (s.wake fuel id rt).Gives fun q rt' =>
      q = (false, s) ∧ rt' = rt ∨ q.1 = true ∧ Settles [] s (rt.record (.resumed id)) q.2 rt' := by
  simp only [wake]
  cases hp : s.parked[id]? with
  | none => exact Or.inl ⟨rfl, rfl⟩
  | some p =>
    dsimp only
    split <;> rename_i hstate
    · obtain ⟨rfl, _⟩ := h.parked id p hp
      refine Act.gives_bind (rouse_gives fuel (h.woken hp hstate)) fun s' rt' hsettles => ?_
      exact Or.inr ⟨rfl, hsettles⟩
    · exact Or.inl ⟨rfl, rfl⟩

/-- What becomes of a scheduler and a runtime while `n` sleepers are taken up again. -/
structure Drains (s : Scheduler) (rt : Runtime) (n : Nat) (s' : Scheduler)
    (rt' : Runtime) : Prop where
  books : Books [] s' rt'
  settled : rt'.detached = #[]
  tick : s'.tick = s.tick
  depth : rt'.maxDepth = rt.maxDepth
  turns : ∃ log, rt'.chronicle = log ++ rt.chronicle ∧ Turns rt.chronicle log ∧
    log.countP Milestone.isResumption = n

theorem Drains.trans {n m : Nat} {s' s'' : Scheduler} {rt' rt'' : Runtime}
    (h : Drains s rt n s' rt') (h' : Drains s' rt' m s'' rt'') : Drains s rt (n + m) s'' rt'' where
  books := h'.books
  settled := h'.settled
  tick := h'.tick.trans h.tick
  depth := h'.depth.trans h.depth
  turns := by
    obtain ⟨log, hlog, hturns, rfl⟩ := h.turns
    obtain ⟨log', hlog', hturns', rfl⟩ := h'.turns
    rw [hlog] at hturns'
    refine ⟨log' ++ log, by rw [hlog', hlog, List.append_assoc], hturns'.append hturns, ?_⟩
    rw [List.countP_append, Nat.add_comm]

/-- The turn of the first sleeper on the queue. -/
theorem turn_gives (fuel : Nat) (h : Books [] s rt) {first : Sleeper} {rest : List Sleeper}
    (hs : s.sleepers = first :: rest) (hdue : first.wakeAt ≤ s.tick) {p : Parked}
    (hp : s.parked[first.context]? = some p) :
    (({ s with sleepers := rest }).rouse fuel p rt).Gives (Drains s rt 1) := by
  obtain ⟨p', hp', hasleep, hbooks⟩ := Ledger.first h hs hdue
  obtain rfl : p = p' := Option.some.inj (hp.symm.trans hp')
  have hid := (h.parked first.context p hp).1
  rw [← hid] at hbooks hasleep
  refine (rouse_gives fuel hbooks).mono fun s' rt' hsettles => ?_
  obtain ⟨log, hlog, hquiet⟩ := hsettles.quiet.adds
  exact {
    books := hsettles.books
    settled := hsettles.settled
    tick := hsettles.quiet.tick
    depth := hsettles.quiet.depth
    turns := by
      refine ⟨log ++ [.resumed p.context.id], by rw [hlog, List.append_assoc]; rfl, ?_, ?_⟩
      · exact (Turns.of_quiet hquiet).append ⟨trivial, hasleep⟩
      · have hnone : log.countP Milestone.isResumption = 0 := List.countP_eq_zero.mpr fun m hm => by
          have hm := hquiet m hm
          cases m <;> simp_all [Milestone.IsQuiet, Milestone.isResumption]
        rw [List.countP_append, hnone]
        rfl }

/-- Whoever is due gets a turn, one after the other, until nobody is. -/
theorem resumeDue_gives (fuel : Nat) (resumed : Nat) (h : Books [] s rt)
    (hsettled : rt.detached = #[]) :
    (resumeDue fuel s resumed rt).Gives fun q rt' =>
      ∃ n, q.1 = resumed + n ∧ Drains s rt n q.2 rt' ∧ ∀ e ∈ q.2.sleepers, q.2.tick < e.wakeAt := by
  induction fuel generalizing s rt resumed with
  | zero => trivial
  | succ fuel ih =>
    have hdone : Drains s rt 0 s rt := ⟨h, hsettled, rfl, rfl, [], rfl, trivial, rfl⟩
    simp only [resumeDue]
    cases hs : s.sleepers with
    | nil => exact ⟨0, rfl, hdone, by simp [hs]⟩
    | cons first rest =>
      dsimp only
      split
      · rename_i hlate
        -- The queue is sorted, so that the first speaks for the others.
        refine ⟨0, rfl, hdone, fun e he => ?_⟩
        have hsorted := h.sorted
        rw [hs] at hsorted he
        obtain rfl | he := List.mem_cons.mp he
        · exact hlate
        · have hbefore := (Sleeper.before_iff first e).mp ((List.pairwise_cons.mp hsorted).1 e he)
          simp only [UInt64.lt_iff_toNat_lt, ← UInt64.toNat_inj] at hlate hbefore ⊢
          omega
      · rename_i hdue
        have hdue : first.wakeAt ≤ s.tick := UInt64.not_lt.mp hdue
        cases hp : s.parked[first.context]? with
        | none =>
          obtain ⟨p, hp', _⟩ := Ledger.first h hs hdue
          exact absurd (hp.symm.trans hp') (by simp)
        | some p =>
          refine Act.gives_bind (turn_gives fuel h hs hdue hp) fun s₁ rt₁ hturn => ?_
          refine (ih (resumed + 1) hturn.books hturn.settled).mono fun q rt' hrest => ?_
          obtain ⟨n, hn, hdrains, hdue⟩ := hrest
          exact ⟨1 + n, by omega, hturn.trans hdrains, hdue⟩

/-- What every turn keeps is kept until nobody is due. -/
theorem resumeDue_keeps {P : Scheduler → Runtime → Prop}
    (hqueue : ∀ s rt sleepers, P s rt → P { s with sleepers := sleepers } rt)
    (hturn : ∀ fuel s rt p, P s rt → s.parked[p.context.id]? = some p →
      Books [p.context.id] { s with parked := s.parked.erase p.context.id }
        (rt.record (.resumed p.context.id)) →
      (s.rouse fuel p rt).Gives P)
    (fuel : Nat) (resumed : Nat) (h : P s rt) (hbooks : Books [] s rt)
    (hsettled : rt.detached = #[]) :
    (resumeDue fuel s resumed rt).Gives fun q => P q.2 := by
  induction fuel generalizing s rt resumed with
  | zero => trivial
  | succ fuel ih =>
    simp only [resumeDue]
    cases hs : s.sleepers with
    | nil => exact h
    | cons first rest =>
      dsimp only
      split
      · exact h
      · rename_i hdue
        have hdue : first.wakeAt ≤ s.tick := UInt64.not_lt.mp hdue
        obtain ⟨p, hp, _, htaken⟩ := Ledger.first hbooks hs hdue
        have hid := (hbooks.parked first.context p hp).1
        have hgives := turn_gives fuel hbooks hs hdue hp
        rw [hp]
        rw [← hid] at hp htaken
        have hkept := hturn fuel { s with sleepers := rest } rt p (hqueue s rt rest h) hp htaken
        refine Act.gives_bind (hgives.and hkept) fun s' rt' ⟨hdrains, h'⟩ => ?_
        exact ih (resumed + 1) h' hdrains.books hdrains.settled

/-! ### Ticks -/

/-- What becomes of a scheduler and a runtime when the counter moves on: the adrift are filed
before, and `n` sleepers are taken up again after. -/
structure Ticks (s : Scheduler) (rt : Runtime) (n : Nat) (s' : Scheduler)
    (rt' : Runtime) : Prop where
  books : Books [] s' rt'
  settled : rt'.detached = #[]
  calm : Calm rt'.chronicle
  /-- Nobody on the queue is due any more. -/
  drained : ∀ e ∈ s'.sleepers, s'.tick < e.wakeAt
  tick : s'.tick = s.tick + 1
  depth : rt'.maxDepth = rt.maxDepth
  turns : ∃ log filings, rt'.chronicle = log ++ .ticked (s.tick + 1) :: (filings ++ rt.chronicle) ∧
    Turns (.ticked (s.tick + 1) :: (filings ++ rt.chronicle)) log ∧ (∀ m ∈ filings, m.IsFiling) ∧
    log.countP Milestone.isResumption = n

/-- What becomes of a scheduler and a runtime before anybody gets a turn in a tick. -/
structure Opens (s : Scheduler) (rt : Runtime) (s' : Scheduler) (rt' : Runtime) : Prop where
  tick : s'.tick = s.tick
  books : Books [] { s' with tick := s'.tick + 1 } (rt'.record (.ticked (s'.tick + 1)))
  settled : rt'.detached = #[]
  depth : rt'.maxDepth = rt.maxDepth
  adds : ∃ filings, rt'.chronicle = filings ++ rt.chronicle ∧ ∀ m ∈ filings, m.IsFiling

theorem opens (fuel : Nat) (h : Books [] s rt) (hcalm : Calm rt.chronicle) :
    (s.adopt fuel rt).Gives (Opens s rt) := by
  refine (adopt_spec fuel h).mono fun s' rt' ⟨hbooks, hsettled, hadds⟩ => ?_
  obtain ⟨filings, hlog, hfilings⟩ := hadds.adds
  have hcalm' : Calm rt'.chronicle := by
    rw [hlog]
    exact hcalm.append (Still.of_quiet fun m hm => (hfilings m hm).isQuiet)
  refine ⟨hadds.tick, ?_, hsettled, hadds.depth, filings, hlog, hfilings⟩
  rw [Books, hsettled] at hbooks
  rw [Books, Runtime.record, hsettled]
  exact hbooks.ticked hcalm'

theorem advance_gives (fuel : Nat) (h : Books [] s rt) (hcalm : Calm rt.chronicle) :
    (s.advance fuel rt).Gives fun q rt' => Ticks s rt q.1 q.2 rt' := by
  refine Act.gives_bind (opens fuel h hcalm) fun s₁ rt₁ hopens => Runtime.recording_gives ?_
  obtain ⟨filings, hlog, hfilings⟩ := hopens.adds
  refine (resumeDue_gives fuel 0 hopens.books hopens.settled).mono fun q rt' hdrained => ?_
  obtain ⟨n, hn, hdrains, hdue⟩ := hdrained
  obtain ⟨log, hlog', hturns, hcount⟩ := hdrains.turns
  have hbooks' := hdrains.books
  rw [Books, hdrains.settled] at hbooks'
  have hchronicle : (rt₁.record (.ticked (s₁.tick + 1))).chronicle =
      .ticked (s.tick + 1) :: (filings ++ rt.chronicle) := by
    rw [← hopens.tick, ← hlog]
    rfl
  rw [hchronicle] at hlog' hturns
  exact {
    books := hdrains.books
    settled := hdrains.settled
    calm := hbooks'.calm hdue
    drained := hdue
    tick := hdrains.tick.trans (congrArg (· + 1) hopens.tick)
    depth := hdrains.depth.trans hopens.depth
    turns := ⟨log, filings, hlog', hturns, hfilings, by omega⟩ }

end Scheduler

end ProcEngine
