import ProcEngine.Builtins
import ProcEngine.Proofs.CommandLine.Deeds
import ProcEngine.Proofs.Scheduler.Punctuality
import ProcEngine.Proofs.Scheduler.Queue
import ProcEngine.Proofs.World.Atomicity
/-!
# Sessions and their tick limit

A session lets ticks pass one at a time, and looks at its limit after each. So it lets at most as
many pass as the limit says, but for the limit zero: then it still lets one pass if somebody sleeps
once the entry proc has been started. A session that stops before its limit leaves nobody asleep or
adrift, and more ticks would resume nobody.
-/

namespace ProcEngine

open Chronicle

/-! ### Hosts at rest -/

namespace Host

variable {h : Host}

/-- Nobody is adrift or asleep, whoever is not finished waits for the outside, and ticks will change
none of it. -/
structure IsAtRest (h : Host) : Prop where
  settled : h.runtime.detached = #[]
  sleepless : ∀ id, ¬ h.scheduler.Sleeps id
  waits : ∀ id, .created id ∈ h.runtime.chronicle → ¬ Finished id h.runtime.chronicle →
    h.scheduler.Waits id
  idle : h.StaysIdle

theorem InOrder.isAtRest (hin : h.InOrder) (hsettled : h.runtime.detached = #[])
    (hqueue : h.scheduler.hasSleepers = false) : h.IsAtRest := by
  have hsleepless : ∀ id, ¬ h.scheduler.Sleeps id := by
    intro id hsleeps
    have hsome := hin.books.agrees.hasSleepers_iff.mpr ⟨id, hsleeps⟩
    rw [hqueue] at hsome
    cases hsome
  refine ⟨hsettled, hsleepless, ?_, staysIdle_of_settled hqueue hsettled⟩
  intro id hcreated hunfinished
  obtain ⟨w, hstanding⟩ := (hin.books.unfinished_iff id).mp ⟨hcreated, hunfinished⟩
  obtain hparked | hadrift := hin.books.kept id w hstanding
  · obtain ⟨p, hp⟩ := Option.isSome_iff_exists.mp hparked
    have hstate := (hin.books.parked id p hp).2.1
    rw [hstanding, Option.some.injEq, Standing.stopped.injEq] at hstate
    cases w with
    | ticks n => exact absurd ⟨p, n, hp, hstate.symm⟩ (hsleepless id)
    | external => exact ⟨p, hp, hstate.symm⟩
  · rw [hsettled] at hadrift
    cases hadrift

end Host

theorem Runtime.IsUnused.install {rt : Runtime} (h : rt.IsUnused) :
    (Builtins.install rt).IsUnused :=
  ⟨h.detached, h.chronicle⟩

namespace CommandLine

namespace Session

def host (s : Session) : Host := ⟨s.runtime, s.scheduler⟩

variable {s s' : Session} {n : Nat} {ending : Except Failure Session}

/-- A session is fresh if a world has just been loaded and nothing has run. -/
theorem isFresh_of_unused (h : s.runtime.IsUnused) (hscheduler : s.scheduler = {}) :
    s.host.IsFresh :=
  ⟨hscheduler, h.detached, h.chronicle⟩

/-! ### One operation -/

theorem ticks_logAll (f : Log.Filter) (lines : List Log.Line) :
    (Terminal.noting.logAll f lines).ticks = 0 := by
  unfold Terminal.logAll
  induction lines.filter f.shows with
  | nil => rfl
  | cons line rest ih =>
    rw [List.forM_eq_forM, List.forM_cons] at *
    rw [Noted.ticks_bind, ih]
    rfl

variable {α : Type} {x : Act Runtime (α × Scheduler)}

theorem ticks_act (s : Session) (x : Act Runtime (α × Scheduler)) :
    (s.act Terminal.noting x).run.ticks = 0 := by
  unfold act
  cases x s.runtime with
  | ok q rt =>
    rw [Noted.ticks_run_bind, Noted.ticks_lift, Noted.ticks_bind, ticks_logAll]
    rfl
  | fault why rt =>
    rw [Noted.ticks_run_bind, Noted.ticks_lift, Noted.ticks_bind, ticks_logAll]
    rfl
  | breach why rt => rfl
  | exhausted => rfl

/-- A session that has let its engine act is its host after an operation, with nothing left to
log. -/
theorem act_performs {fuel : Nat} {op : Operation} {answer : α → Answer}
    (hop : op.act fuel s.scheduler = x >>= fun q => pure (answer q.1, q.2))
    (h : (s.act Terminal.noting x).run.value = .ok s') :
    ∃ e h', s.host.perform fuel op = some (e, h') ∧ s' = { s with
      runtime := { h'.runtime with store := { h'.runtime.store with journal := #[] } }
      scheduler := h'.scheduler } := by
  have hact : (op.act fuel s.scheduler) s.runtime =
      (x >>= fun q => pure (answer q.1, q.2)) s.runtime := by rw [hop]
  unfold act at h
  simp only [Host.perform, host, hact, Act.bind_apply]
  cases hx : x s.runtime with
  | ok q rt =>
    rw [hx] at h
    cases h
    exact ⟨_, _, rfl, rfl⟩
  | fault why rt =>
    rw [hx] at h
    cases h
    exact ⟨_, _, rfl, rfl⟩
  | breach why rt =>
    rw [hx] at h
    cases h
  | exhausted =>
    rw [hx] at h
    cases h

/-- The books are kept and nobody is adrift. -/
structure IsSettled (s : Session) : Prop where
  inOrder : s.host.InOrder
  settled : s.runtime.detached = #[]

/-- What an operation makes of a session that lets nobody go adrift. -/
structure Follows (s : Session) (op : Operation) (s' : Session) : Prop where
  isSettled : s'.IsSettled
  tickLimit : s'.tickLimit = s.tickLimit
  tick : s'.scheduler.tick = if op.isTick then s.scheduler.tick + 1 else s.scheduler.tick

theorem act_follows {fuel : Nat} {op : Operation} {answer : α → Answer}
    (hop : op.act fuel s.scheduler = x >>= fun q => pure (answer q.1, q.2))
    (hsettles : ∀ e : Episode, e.operation = op → e.settles) (hin : s.host.InOrder)
    (h : (s.act Terminal.noting x).run.value = .ok s') : s.Follows op s' := by
  obtain ⟨e, h', hperform, rfl⟩ := act_performs hop h
  have hpasses := Host.passes hin hperform
  have hoperation := Host.operation_of_perform hperform
  have hin' := hpasses.inOrder
  refine ⟨⟨⟨hin'.books, hin'.calm, hin'.shallow⟩, hpasses.settled (hsettles e hoperation)⟩, rfl, ?_⟩
  rw [← hoperation]
  exact hpasses.tick.trans (hpasses.tick_eq hin)

/-! ### Ticks -/

/-- The session lets so many ticks pass, and ends so. Where the engine runs out of steps, it ends
with that. -/
inductive Lasts : Session → Nat → Except Failure Session → Prop
  | stops {s : Session} {why : List Log.Line} : s.next = .stop why → Lasts s 0 (.ok s)
  | exhausts (s : Session) : Lasts s 0 (.error .exhausted)
  | fails {s : Session} {fuel : Nat} {why : Failure} : s.next = .tick →
    (s.act Terminal.noting (s.scheduler.advance fuel)).run.value = .error why →
      Lasts s 1 (.error why)
  | ticks {s s' : Session} {fuel n : Nat} {ending : Except Failure Session} : s.next = .tick →
    (s.act Terminal.noting (s.scheduler.advance fuel)).run.value = .ok s' → Lasts s' n ending →
    Lasts s (n + 1) ending

theorem proceed_of_stop {why : List Log.Line} (fuel : Nat) (h : s.next = .stop why) :
    (s.proceed Terminal.noting (fuel + 1)).run.ticks = 0 ∧
      (s.proceed Terminal.noting (fuel + 1)).run.value = .ok s := by
  unfold proceed
  rw [h]
  simp only [Noted.ticks_run_bind, Noted.ticks_lift, ticks_logAll]
  exact ⟨rfl, rfl⟩

theorem proceed_of_tick (fuel : Nat) (h : s.next = .tick) :
    (s.proceed Terminal.noting (fuel + 1)).run.ticks =
        (match (s.act Terminal.noting (s.scheduler.advance fuel)).run.value with
          | .ok s' => (s'.proceed Terminal.noting fuel).run.ticks
          | .error _ => 0) + 1 ∧
      (s.proceed Terminal.noting (fuel + 1)).run.value =
        (s.act Terminal.noting (s.scheduler.advance fuel)).run.value.bind fun s' =>
          (s'.proceed Terminal.noting fuel).run.value := by
  have hpaused :
      (liftM (Terminal.noting.pause s.tickLength) : ExceptT Failure Noted Unit).run.value =
        .ok () := rfl
  have hpause : (Terminal.noting.pause s.tickLength).ticks = 1 := rfl
  rw [proceed, h]
  simp only [Noted.ticks_run_bind, Noted.value_run_bind, Noted.ticks_lift, hpaused, hpause,
    ticks_act, Nat.zero_add, Nat.add_comm 1]
  refine ⟨?_, rfl⟩
  cases (s.act Terminal.noting (s.scheduler.advance fuel)).run.value <;> rfl

theorem lasts (fuel : Nat) (s : Session) :
    s.Lasts (s.proceed Terminal.noting fuel).run.ticks
      (s.proceed Terminal.noting fuel).run.value := by
  induction fuel generalizing s with
  | zero => exact Lasts.exhausts s
  | succ fuel ih =>
    cases hnext : s.next with
    | stop why =>
      obtain ⟨hticks, hvalue⟩ := proceed_of_stop fuel hnext
      rw [hticks, hvalue]
      exact Lasts.stops hnext
    | tick =>
      obtain ⟨hticks, hvalue⟩ := proceed_of_tick fuel hnext
      rw [hticks, hvalue]
      cases hact : (s.act Terminal.noting (s.scheduler.advance fuel)).run.value with
      | error why => exact Lasts.fails hnext hact
      | ok s' => exact Lasts.ticks hnext hact (ih s')

theorem advance_follows {fuel : Nat} (hsettled : s.IsSettled)
    (h : (s.act Terminal.noting (s.scheduler.advance fuel)).run.value = .ok s') :
    s.Follows .tick s' := by
  have hop : Operation.tick.act fuel s.scheduler =
      s.scheduler.advance fuel >>= fun q => pure (Answer.resumed q.1, q.2) := rfl
  apply act_follows hop _ hsettled.inOrder h
  intro e he
  obtain ⟨op, answer, tick, deeds⟩ := e
  cases he
  rfl

theorem next_eq_tick {limit : UInt64} (hlimit : s.tickLimit = some limit) (h : s.next = .tick) :
    s.scheduler.tick = 0 ∨ s.scheduler.tick < limit := by
  unfold next at h
  split at h
  · cases h
  · rename_i hbelow
    simp [hlimit] at hbelow
    by_cases hzero : s.scheduler.tick = 0
    · exact Or.inl hzero
    · exact Or.inr (hbelow (UInt64.pos_iff_ne_zero.mpr hzero))

/-- The ticks that a session counts to, but for the first. -/
theorem Lasts.le {limit : UInt64} (h : s.Lasts n ending) (hsettled : s.IsSettled)
    (hlimit : s.tickLimit = some limit) :
    n ≤ max limit.toNat 1 - s.scheduler.tick.toNat := by
  have hroom {s : Session} (hlimit : s.tickLimit = some limit) (hnext : s.next = .tick) :
      s.scheduler.tick.toNat < max limit.toNat 1 := by
    obtain hzero | hbelow := next_eq_tick hlimit hnext
    · rw [hzero]
      exact Nat.lt_of_lt_of_le Nat.zero_lt_one (Nat.le_max_right _ _)
    · exact Nat.lt_of_lt_of_le (UInt64.lt_iff_toNat_lt.mp hbelow) (Nat.le_max_left _ _)
  induction h with
  | stops _ => exact Nat.zero_le _
  | exhausts _ => exact Nat.zero_le _
  | fails hnext _ => exact Nat.sub_pos_of_lt (hroom hlimit hnext)
  | @ticks s s' fuel n ending hnext hact _ ih =>
    have hfollows := advance_follows hsettled hact
    have hbelow := hroom hlimit hnext
    have hlimit' := limit.toNat_lt
    have hcounts : s'.scheduler.tick = s.scheduler.tick + 1 := hfollows.tick
    have htick : s'.scheduler.tick.toNat = s.scheduler.tick.toNat + 1 := by
      rw [hcounts, UInt64.toNat_add]
      exact Nat.mod_eq_of_lt (by simp; omega)
    have := ih hfollows.isSettled (hfollows.tickLimit.trans hlimit)
    omega

/-- A session that stops has counted its ticks, and has nothing more to do or its limit is
reached. -/
theorem Lasts.stopped (h : s.Lasts n (.ok s')) (hsettled : s.IsSettled) :
    s'.IsSettled ∧ s'.tickLimit = s.tickLimit ∧
    s'.scheduler.tick = s.scheduler.tick + UInt64.ofNat n ∧
      s'.next ≠ .tick := by
  generalize hending : Except.ok s' = ending at h
  induction h with
  | stops hnext =>
    cases hending
    exact ⟨hsettled, rfl, (UInt64.add_zero _).symm, by simp [hnext]⟩
  | exhausts _ => cases hending
  | fails _ _ => cases hending
  | @ticks s s₁ fuel n ending hnext hact _ ih =>
    have hfollows := advance_follows hsettled hact
    obtain ⟨hsettled', hlimit, htick, hstops⟩ := ih hfollows.isSettled hending
    refine ⟨hsettled', hlimit.trans hfollows.tickLimit, ?_, hstops⟩
    have hcounts : s₁.scheduler.tick = s.scheduler.tick + 1 := hfollows.tick
    rw [htick, hcounts, UInt64.ofNat_add, UInt64.add_assoc, UInt64.add_comm 1]
    rfl

theorem hasSleepers_of_tick (h : s.next = .tick) : s.scheduler.hasSleepers := by
  unfold next at h
  repeat' split at h
  all_goals first | assumption | cases h

/-- Where the limit has nothing to say, another tick follows if and only if somebody sleeps. -/
theorem IsSettled.next_eq_tick_iff (hsettled : s.IsSettled)
    (hfree : 0 < s.scheduler.tick → ∀ limit, s.tickLimit = some limit → s.scheduler.tick < limit) :
    s.next = .tick ↔ s.scheduler.hasSleepers := by
  refine ⟨hasSleepers_of_tick, ?_⟩
  intro hsleepers
  have hbelow : ¬ (0 < s.scheduler.tick && s.tickLimit.any fun limit => limit ≤ s.scheduler.tick) =
      true := by
    simp only [Bool.and_eq_true, decide_eq_true_eq, Option.any_eq_true]
    rintro ⟨hpos, limit, hlimit, hreached⟩
    exact UInt64.not_le.mpr (hfree hpos limit hlimit) hreached
  have hbusy : ¬ s.scheduler.isIdle := by
    obtain ⟨id, p, _, hp, _⟩ := hsettled.inOrder.books.agrees.hasSleepers_iff.mp hsleepers
    intro hidle
    have hempty : s.scheduler.parked = ∅ := by simpa [Scheduler.isIdle] using hidle
    have hp : s.scheduler.parked[id]? = some p := hp
    rw [hempty] at hp
    simp at hp
  rw [next, if_neg hbelow, if_neg hbusy, if_pos hsleepers]

theorem IsSettled.isAtRest (hsettled : s.IsSettled) (hstops : s.next ≠ .tick)
    (hbelow : ∀ limit, s.tickLimit = some limit → s.scheduler.tick < limit) : s.host.IsAtRest := by
  apply hsettled.inOrder.isAtRest hsettled.settled
  rw [Bool.eq_false_iff]
  intro hsleepers
  exact hstops ((hsettled.next_eq_tick_iff fun _ => hbelow).mpr hsleepers)

/-! ### Whole sessions -/

/-- Starting the entry proc takes no tick. -/
theorem ticks_start (fuel : Nat) (s : Session) (entry : String) :
    (s.start Terminal.noting fuel entry).run.ticks = 0 := by
  unfold start
  cases s.runtime.global entry with
  | error why => rfl
  | ok p => exact ticks_act s _

theorem start_follows {fuel : Nat} {entry : String} (hfresh : s.host.IsFresh)
    (h : (s.start Terminal.noting fuel entry).run.value = .ok s') :
    s'.IsSettled ∧ s'.tickLimit = s.tickLimit ∧ s'.scheduler.tick = 0 := by
  have hscheduler : s.scheduler = {} := hfresh.scheduler
  unfold start at h
  cases hentry : s.runtime.global entry with
  | error why =>
    rw [hentry] at h
    cases h
  | ok p =>
    rw [hentry] at h
    have hop : (Operation.callAsync p {} (some completion)).act fuel s.scheduler =
        s.scheduler.callAsync fuel p {} (some completion) >>= fun q =>
          pure (Answer.context q.1, q.2) := rfl
    have hfollows : s.Follows (.callAsync p {} (some completion)) s' := by
      apply act_follows hop _ hfresh.inOrder h
      intro e he
      obtain ⟨op, answer, tick, deeds⟩ := e
      cases he
      rfl
    refine ⟨hfollows.isSettled, hfollows.tickLimit, hfollows.tick.trans ?_⟩
    rw [hscheduler]
    rfl

theorem course_eq (fuel : Nat) (s : Session) (entry : String) :
    (∃ why, (s.start Terminal.noting fuel entry).run.value = .error why ∧
      (s.course fuel entry).ticks = 0 ∧ (s.course fuel entry).value = .error why) ∨
    ∃ s₁, (s.start Terminal.noting fuel entry).run.value = .ok s₁ ∧
      (s.course fuel entry).ticks = (s₁.proceed Terminal.noting fuel).run.ticks ∧
      (s.course fuel entry).value = (s₁.proceed Terminal.noting fuel).run.value := by
  unfold course
  simp only [Noted.ticks_run_bind, Noted.value_run_bind, ticks_start]
  cases hstart : (s.start Terminal.noting fuel entry).run.value with
  | error why => exact Or.inl ⟨why, rfl, rfl, rfl⟩
  | ok s₁ => exact Or.inr ⟨s₁, rfl, Nat.zero_add _, rfl⟩

/-- A session that has been started and proceeds. -/
theorem course_cases (hfresh : s.host.IsFresh) (fuel : Nat) (entry : String) :
    (∃ why, (s.start Terminal.noting fuel entry).run.value = .error why ∧
      (s.course fuel entry).ticks = 0 ∧ (s.course fuel entry).value = .error why) ∨
    ∃ s₁, (s.start Terminal.noting fuel entry).run.value = .ok s₁ ∧ s₁.IsSettled ∧
      s₁.tickLimit = s.tickLimit ∧
      s₁.scheduler.tick = 0 ∧ s₁.Lasts (s.course fuel entry).ticks (s.course fuel entry).value := by
  obtain hfails | ⟨s₁, hstart, hticks, hvalue⟩ := course_eq fuel s entry
  · exact Or.inl hfails
  · obtain ⟨hsettled, hlimit, htick⟩ := start_follows hfresh hstart
    refine Or.inr ⟨s₁, hstart, hsettled, hlimit, htick, ?_⟩
    rw [hticks, hvalue]
    exact lasts fuel s₁

/-- What holds of a session whatever becomes of it. -/
structure KeepsToLimit (s : Session) (fuel : Nat) (entry : String) : Prop where
  /-- On every terminal, to run the world is to carry out the course of the session and to conclude
  it. -/
  performs : ∀ {m : Type → Type} [Monad m] [LawfulMonad m] (t : Terminal m),
    (runWorld t fuel s entry).run = (s.course fuel entry).on t >>= conclude t
  bounded : ∀ limit, s.tickLimit = some limit → (s.course fuel entry).ticks ≤ max limit.toNat 1
  /-- The one limit that is passed is zero, and it is if somebody sleeps when the entry proc has
  been started. -/
  passes : ∀ limit, s.tickLimit = some limit → (limit.toNat < (s.course fuel entry).ticks ↔
    limit = 0 ∧ ∃ s₁, (s.start Terminal.noting fuel entry).run.value = .ok s₁ ∧
      s₁.scheduler.hasSleepers)
  counts : ∀ s', (s.course fuel entry).value = .ok s' →
    s'.scheduler.tick = UInt64.ofNat (s.course fuel entry).ticks
  /-- A session that stops before its limit leaves nobody behind whom a tick could resume. -/
  atRest : ∀ s', (s.course fuel entry).value = .ok s' →
    (∀ limit, s.tickLimit = some limit → (s.course fuel entry).ticks < limit.toNat) →
      s'.host.IsAtRest

theorem bounded (hfresh : s.host.IsFresh) (fuel : Nat) (entry : String) {limit : UInt64}
    (hlimit : s.tickLimit = some limit) : (s.course fuel entry).ticks ≤ max limit.toNat 1 := by
  obtain ⟨_, _, hticks, _⟩ | ⟨s₁, _, hsettled, hlimit₁, htick, hlasts⟩ :=
    course_cases hfresh fuel entry
  · rw [hticks]
    exact Nat.zero_le _
  · have hle := hlasts.le hsettled (hlimit₁.trans hlimit)
    rw [htick] at hle
    exact hle

theorem passes_iff (hfresh : s.host.IsFresh) (fuel : Nat) (entry : String) {limit : UInt64}
    (hlimit : s.tickLimit = some limit) : limit.toNat < (s.course (fuel + 1) entry).ticks ↔
      limit = 0 ∧ ∃ s₁, (s.start Terminal.noting (fuel + 1) entry).run.value = .ok s₁ ∧
        s₁.scheduler.hasSleepers := by
  have hbound := bounded hfresh (fuel + 1) entry hlimit
  have hzero : limit = 0 ↔ limit.toNat = 0 := UInt64.toNat_inj.symm
  obtain ⟨why, hfails, hticks, _⟩ | ⟨s₁, hstart, hticks, _⟩ := course_eq (fuel + 1) s entry
  · rw [hticks, hfails]
    simp
  · obtain ⟨hsettled, hlimit₁, htick⟩ := start_follows hfresh hstart
    have hnext : s₁.next = .tick ↔ s₁.scheduler.hasSleepers := by
      apply hsettled.next_eq_tick_iff
      intro hpos
      rw [htick] at hpos
      exact absurd hpos (by decide)
    have hpos : 0 < (s.course (fuel + 1) entry).ticks ↔ s₁.scheduler.hasSleepers := by
      rw [hticks, ← hnext]
      cases hcase : s₁.next with
      | stop why =>
        rw [(proceed_of_stop fuel hcase).1]
        simp
      | tick =>
        rw [(proceed_of_tick fuel hcase).1]
        simp
    have hstarted :
        (∃ s₁, (s.start Terminal.noting (fuel + 1) entry).run.value = .ok s₁ ∧
          s₁.scheduler.hasSleepers) ↔
        s₁.scheduler.hasSleepers := by
      rw [hstart]
      simp
    rw [hstarted, ← hpos, hzero]
    omega

theorem keeps_to_limit (hfresh : s.host.IsFresh) (fuel : Nat) (entry : String) :
    s.KeepsToLimit (fuel + 1) entry where
  performs t := runWorld_eq (fuel + 1) s entry
  bounded _ hlimit := bounded hfresh (fuel + 1) entry hlimit
  passes _ hlimit := passes_iff hfresh fuel entry hlimit
  counts s' h := by
    obtain ⟨_, _, _, hvalue⟩ | ⟨s₁, _, hsettled, _, htick, hlasts⟩ :=
      course_cases hfresh (fuel + 1) entry
    · rw [hvalue] at h
      cases h
    · rw [h] at hlasts
      have hcounts := (hlasts.stopped hsettled).2.2.1
      rw [hcounts, htick, UInt64.zero_add]
  atRest s' h hbelow := by
    obtain ⟨_, _, _, hvalue⟩ | ⟨s₁, _, hsettled, hlimit₁, htick, hlasts⟩ :=
      course_cases hfresh (fuel + 1) entry
    · rw [hvalue] at h
      cases h
    · rw [h] at hlasts
      obtain ⟨hsettled', hlimit', hcounts, hstops⟩ := hlasts.stopped hsettled
      apply hsettled'.isAtRest hstops
      intro limit hlimit
      rw [hcounts, htick, UInt64.zero_add, UInt64.lt_iff_toNat_lt, UInt64.toNat_ofNat']
      exact Nat.lt_of_le_of_lt (Nat.mod_le _ _)
        (hbelow limit ((hlimit₁.symm.trans hlimit'.symm).trans hlimit))

/-- A world whose entry proc sleeps for one tick. -/
def nappingText : String :=
  "\x7b\"procs\":\x7b\"main\":\x7b\"code\":[\x7b\"op\":\"Push\",\"v\":" ++
    "\x7b\"t\":\"Int\",\"v\":1\x7d\x7d," ++
    "\x7b\"op\":\"Call\",\"name\":\"sleep\",\"argc\":1\x7d,\x7b\"op\":\"Return\"\x7d]\x7d\x7d\x7d"

def nappingRuntime : Runtime := ((Builtins.install {}).loadWorld Builtins.registry nappingText).2

/-- A session that has just loaded that world. -/
def napping (limit : UInt64) : Session where
  filter := ⟨[]⟩
  tickLimit := some limit
  tickLength := 1
  runtime := nappingRuntime

theorem nappingRuntime_isUnused : nappingRuntime.IsUnused := by
  have hempty : ({} : Runtime).IsUnused := ⟨rfl, rfl⟩
  exact hempty.install.loadWorld Builtins.registry nappingText

theorem napping_isFresh (limit : UInt64) : (napping limit).host.IsFresh := by
  apply isFresh_of_unused _ rfl
  simp only [napping]
  exact nappingRuntime_isUnused

theorem napping_keeps_to_limit : (napping 2).host.IsFresh ∧ (napping 2).KeepsToLimit 20 "main" ∧
    ((napping 2).course 20 "main").ticks = 1 ∧
    ∃ s', ((napping 2).course 20 "main").value = .ok s' ∧ s'.host.IsAtRest := by
  have hkeeps := keeps_to_limit (napping_isFresh 2) 19 "main"
  have hticks : ((napping 2).course 20 "main").ticks = 1 := by decide +kernel
  have hends : ((napping 2).course 20 "main").value.toOption.isSome := by decide +kernel
  cases hvalue : ((napping 2).course 20 "main").value with
  | error why =>
    rw [hvalue] at hends
    cases hends
  | ok s' =>
    refine ⟨napping_isFresh 2, hkeeps, hticks, s', rfl, hkeeps.atRest s' hvalue ?_⟩
    intro limit hlimit
    cases hlimit
    rw [hticks]
    decide

/-- With the limit zero, a tick passes before the limit is looked at. -/
theorem limit_zero_is_passed : ¬ ∀ (s : Session) (fuel : Nat) (entry : String) (limit : UInt64),
    s.host.IsFresh → s.tickLimit = some limit → (s.course fuel entry).ticks ≤ limit.toNat := by
  intro hbounded
  have hzero := hbounded (napping 0) 20 "main" 0 (napping_isFresh 0) rfl
  have hticks : ((napping 0).course 20 "main").ticks = 1 := by decide +kernel
  rw [hticks] at hzero
  exact absurd hzero (by decide)

end Session

end CommandLine

end ProcEngine
