import ProcEngine.Proofs.Scheduler.Waking
/-!
# The queue and the parked

The scheduler keeps a sleeper in two places, in the map of the parked and on the queue. The two
never disagree, so that the queue alone tells whether anybody sleeps. While nobody does, and nobody
is adrift, ticks change nothing but the counter, and waking whoever does not wait for the outside
changes nothing at all.
-/

namespace ProcEngine

open Chronicle

namespace Scheduler

def Sleeps (s : Scheduler) (id : ContextId) : Prop :=
  ∃ p n, s.parked[id]? = some p ∧ p.context.state = .deferred (.ticks n)

def Waits (s : Scheduler) (id : ContextId) : Prop :=
  ∃ p, s.parked[id]? = some p ∧ p.context.state = .deferred .external

def queued (s : Scheduler) : List ContextId := s.sleepers.map Sleeper.context

/-- The queue has one entry for everybody who sleeps, and no others. -/
structure Agrees (s : Scheduler) : Prop where
  once : ∀ id, s.Sleeps id → s.queued.count id = 1
  sleeps : ∀ id ∈ s.queued, s.Sleeps id
  never : ∀ id, s.Waits id → s.queued.count id = 0

theorem Agrees.hasSleepers_iff {s : Scheduler} (h : s.Agrees) : s.hasSleepers ↔
    ∃ id, s.Sleeps id := by
  have hqueued : s.hasSleepers ↔ s.queued ≠ [] := by simp [hasSleepers, queued]
  rw [hqueued]
  constructor
  · intro hsome
    obtain ⟨id, hid⟩ := List.exists_mem_of_ne_nil _ hsome
    exact ⟨id, h.sleeps id hid⟩
  · rintro ⟨id, hsleeps⟩ hnone
    have hcount := h.once id hsleeps
    simp [hnone] at hcount

end Scheduler

namespace Ledger

variable {active : List ContextId} {adrift : List Context} {s : Scheduler} {contexts : Nat}
  {log : List Milestone}

theorem queued_nodup (h : Ledger active adrift s contexts log) : s.queued.Nodup := by
  refine List.pairwise_map.mpr (h.sorted.imp_of_mem fun {a b} ha hb hbefore heq => ?_)
  have hsame := pending_unique h.lawful (h.queue.mem_iff.mp ha) (h.queue.mem_iff.mp hb) heq
  exact Sleeper.not_before_self a (hsame ▸ hbefore)

theorem mem_queued_iff (h : Ledger active adrift s contexts log) {id : ContextId} : id ∈ s.queued ↔
    s.Sleeps id := by
  constructor
  · intro hid
    obtain ⟨e, he, rfl⟩ := List.mem_map.mp hid
    have he := h.queue.mem_iff.mp he
    obtain ⟨p, hp⟩ := Option.isSome_iff_exists.mp (h.asleep e he)
    obtain ⟨n, hsleeps⟩ := standing_of_pending h.lawful he
    have hstanding := (h.parked e.context p hp).2.1
    rw [hsleeps, Option.some.injEq, Standing.stopped.injEq] at hstanding
    exact ⟨p, n, hp, hstanding.symm⟩
  · rintro ⟨p, n, hp, hn⟩
    obtain ⟨e, he, rfl⟩ := h.sleeps id p n hp hn
    exact List.mem_map.mpr ⟨e, h.queue.mem_iff.mpr he, rfl⟩

theorem agrees (h : Ledger active adrift s contexts log) : s.Agrees where
  once id hsleeps := by rw [h.queued_nodup.count, if_pos (h.mem_queued_iff.mpr hsleeps)]
  sleeps id := h.mem_queued_iff.mp
  never id hwaits := by
    refine List.count_eq_zero.mpr fun hqueued => ?_
    obtain ⟨p, hp, hexternal⟩ := hwaits
    obtain ⟨q, n, hq, hn⟩ := h.mem_queued_iff.mp hqueued
    obtain rfl : p = q := Option.some.inj (hp.symm.trans hq)
    rw [hexternal] at hn
    cases hn

end Ledger

/-! ### Nobody to resume -/

/-- With nobody on the queue or adrift, all that a tick does is to count. -/
theorem Scheduler.advance_idle {s : Scheduler} {rt : Runtime} (fuel : Nat)
    (hqueue : s.hasSleepers = false) (hsettled : rt.detached = #[]) :
    s.advance (fuel + 1) rt = .ok (0, { s with tick := s.tick + 1 })
      (rt.record (.ticked (s.tick + 1))) := by
  have hnone : s.sleepers = [] := by simpa [hasSleepers] using hqueue
  simp only [advance, Act.bind_apply, adopt_settled (fuel + 1) s hsettled]
  show resumeDue (fuel + 1) { s with tick := s.tick + 1 } 0 _ = _
  simp only [resumeDue, hnone]
  rfl

namespace Host

variable {h h' : Host} {episodes : List Episode} {id : ContextId}

/-- However many ticks pass, they resume nobody, and they change nothing but the counter. -/
def StaysIdle (h : Host) : Prop :=
  ∀ fuel n, ∃ ticks log, h.performAll (fuel + 1) (List.replicate n .tick) =
      some (ticks, ⟨{ h.runtime with chronicle := log ++ h.runtime.chronicle },
        { h.scheduler with tick := h.scheduler.tick + UInt64.ofNat n }⟩) ∧
    (∀ e ∈ ticks, e.answer = .ok (.resumed 0)) ∧ ∀ m ∈ log, ∃ t, m = .ticked t

theorem staysIdle_of_settled (hqueue : h.scheduler.hasSleepers = false)
    (hsettled : h.runtime.detached = #[]) :
    h.StaysIdle := by
  intro fuel n
  induction n generalizing h with
  | zero => exact ⟨[], [], by simp [performAll], by simp, by simp⟩
  | succ n ih =>
    let next : Host := ⟨h.runtime.record (.ticked (h.scheduler.tick + 1)),
      { h.scheduler with tick := h.scheduler.tick + 1 }⟩
    have hfirst : h.perform (fuel + 1) .tick =
        some (h.episode .tick (.ok (.resumed 0)) next, next) := by
      simp only [perform, Operation.act, Act.bind_apply,
        Scheduler.advance_idle fuel hqueue hsettled]
      rfl
    obtain ⟨ticks, log, hrest, hanswers, hticked⟩ := ih (h := next) hqueue hsettled
    refine ⟨h.episode .tick (.ok (.resumed 0)) next :: ticks,
      log ++ [.ticked (h.scheduler.tick + 1)], ?_, ?_, ?_⟩
    · simp only [List.replicate_succ, performAll, hfirst, hrest, Option.map_some, Option.some.injEq,
        Prod.mk.injEq, true_and]
      have hcount : h.scheduler.tick + 1 + UInt64.ofNat n =
          h.scheduler.tick + UInt64.ofNat (n + 1) := by
        rw [UInt64.ofNat_add, UInt64.add_assoc, UInt64.add_comm 1]
        rfl
      simp only [next, Runtime.record, hcount, List.append_assoc, List.singleton_append]
    · intro e he
      obtain rfl | he := List.mem_cons.mp he
      · rfl
      · exact hanswers e he
    · intro m hm
      obtain hm | hm := List.mem_append.mp hm
      · exact hticked m hm
      · exact ⟨_, List.mem_singleton.mp hm⟩

theorem InOrder.ignores (hin : h.InOrder)
    (hnot : standing id h.runtime.chronicle ≠ some (.stopped (.deferred .external))) :
    h.Ignores id := by
  cases hp : h.scheduler.parked[id]? with
  | none => exact ignores_of_absent hp
  | some p =>
    have hstanding := (hin.books.parked id p hp).2.1
    have hstate : p.context.state ≠ .deferred .external := fun heq => hnot (heq ▸ hstanding)
    intro fuel
    simp only [Scheduler.wake, hp, hstate, if_false]
    rfl

theorem not_waiting {log : List Milestone} (hlawful : Lawful log)
    (hid : (∃ n, standing id log = some (.stopped (.deferred (.ticks n)))) ∨ Finished id log ∨
      .created id ∉ log) :
    standing id log ≠ some (.stopped (.deferred .external)) := by
  intro hwaits
  obtain ⟨n, hsleeps⟩ | (hreturned | ⟨why, hfaulted⟩) | hunknown := hid
  · exact absurd (hwaits.symm.trans hsleeps) (by simp)
  · exact absurd (hwaits.symm.trans (standing_of_finished (Or.inl rfl) hlawful hreturned)) (by simp)
  · exact absurd (hwaits.symm.trans (standing_of_finished (Or.inr ⟨why, rfl⟩) hlawful hfaulted))
      (by simp)
  · exact hunknown ((standing_isSome_iff hlawful).mp (hwaits ▸ rfl))

/-- Whatever a host has done, queue and map agree. While the queue is empty and nobody is adrift,
ticks only count, and a wake-up does nothing to whoever sleeps, has finished or is unknown. -/
theorem Runs.queue_agrees (hfresh : h.IsFresh) (hruns : h.Runs episodes h') :
    h'.scheduler.Agrees ∧
    (h'.scheduler.hasSleepers ↔ ∃ id, h'.scheduler.Sleeps id) ∧
    (h'.scheduler.hasSleepers = false → h'.runtime.detached = #[] → h'.StaysIdle) ∧
    ∀ id,
      (∃ n, standing id (episodes.flatMap Episode.deeds).reverse =
        some (.stopped (.deferred (.ticks n)))) ∨
        Finished id (episodes.flatMap Episode.deeds) ∨
        .created id ∉ episodes.flatMap Episode.deeds →
      h'.Ignores id := by
  have hin := hruns.inOrder hfresh.inOrder
  have hchronicle := hruns.chronicle hfresh.inOrder
  rw [hfresh.chronicle, List.append_nil] at hchronicle
  have hagrees := hin.books.agrees
  refine ⟨hagrees, hagrees.hasSleepers_iff, staysIdle_of_settled, fun id hid => hin.ignores ?_⟩
  refine not_waiting hin.books.lawful ?_
  rw [hchronicle]
  simpa [Finished] using hid

theorem naps_are_queued :
    (∃ episodes h', napping.Runs episodes h' ∧ episodes.length = 2 ∧ h'.StaysIdle) ∧
    ∃ episodes h', napping.Runs episodes h' ∧ h'.scheduler.hasSleepers ∧ h'.scheduler.Agrees ∧
      h'.Ignores 1 ∧ h'.Ignores 2 ∧ h'.Ignores 3 := by
  have hfresh : napping.IsFresh := ⟨rfl, rfl, rfl⟩
  constructor
  · have hperforms : ((napping.performAll 9 [.spawn ⟨1, "nap"⟩ {}, .tick]).map fun q =>
        (q.1.length, q.2.scheduler.hasSleepers, q.2.runtime.detached.size)) =
          some (2, false, 0) := by decide +kernel
    obtain ⟨⟨episodes, h'⟩, hperform, heq⟩ := Option.map_eq_some_iff.mp hperforms
    simp only [Prod.mk.injEq] at heq
    obtain ⟨hlength, hqueue, hsettled⟩ := heq
    have hruns := runs_of_performAll hperform
    have hlaws := Runs.queue_agrees hfresh hruns
    exact ⟨episodes, h', hruns, hlength,
      hlaws.2.2.1 hqueue (Array.eq_empty_of_size_eq_zero hsettled)⟩
  · have hperforms :
        ((napping.performAll 9 [.spawn ⟨1, "nap"⟩ {}, .tick, .spawn ⟨1, "nap"⟩ {}]).map fun q =>
        (q.1.flatMap Episode.deeds, q.2.scheduler.hasSleepers)) =
          some ([.created 1, .stopped 1 (.deferred (.ticks 1)), .filed 1 1, .ticked 1, .resumed 1,
            .stopped 1 .returned, .created 2, .stopped 2 (.deferred (.ticks 1)), .filed 2 2],
              true) := by
      decide +kernel
    obtain ⟨⟨episodes, h'⟩, hperform, heq⟩ := Option.map_eq_some_iff.mp hperforms
    obtain ⟨hdeeds, hqueue⟩ := Prod.mk.inj heq
    have hruns := runs_of_performAll hperform
    obtain ⟨hagrees, _, _, hignores⟩ := Runs.queue_agrees hfresh hruns
    rw [hdeeds] at hignores
    exact ⟨episodes, h', hruns, hqueue, hagrees, hignores 1 (Or.inr (Or.inl (Or.inl (by simp)))),
      hignores 2 (Or.inl ⟨1, rfl⟩), hignores 3 (Or.inr (Or.inr (by simp)))⟩

end Host

end ProcEngine
