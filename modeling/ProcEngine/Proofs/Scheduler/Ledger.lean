import ProcEngine.Proofs.Scheduler.Chronicle
/-!
# The ledger

Where every context is, according to the chronicle: it runs, or it is parked, or it is adrift, which
is to have stopped and not to be parked yet. `Ledger` states this of a scheduler and of what the
runtime knows, and has one lemma for every milestone. Whatever runs keeps the books by these alone.
-/

namespace ProcEngine

open Chronicle

/-! ### The queue -/

namespace Sleeper

theorem before_iff (a b : Sleeper) :
    a.before b = true ↔ a.wakeAt < b.wakeAt ∨ a.wakeAt = b.wakeAt ∧ a.order < b.order := by
  simp [before]

theorem before_trans {a b c : Sleeper} (hab : a.before b) (hbc : b.before c) : a.before c := by
  rw [before_iff] at hab hbc ⊢
  simp only [UInt64.lt_iff_toNat_lt, ← UInt64.toNat_inj] at hab hbc ⊢
  omega

theorem before_of_not_before {a b : Sleeper} (horder : a.order ≠ b.order) (h : ¬ a.before b) :
    b.before a := by
  rw [before_iff] at h ⊢
  simp only [UInt64.lt_iff_toNat_lt, ← UInt64.toNat_inj] at h ⊢
  omega

theorem not_before_self (a : Sleeper) : ¬ a.before a := by
  rw [before_iff]
  simp only [UInt64.lt_iff_toNat_lt]
  omega

end Sleeper

namespace Scheduler

theorem enqueue_perm (e : Sleeper) (queue : List Sleeper) :
    (enqueue e queue).Perm (e :: queue) := by
  induction queue with
  | nil => exact List.Perm.refl _
  | cons first rest ih =>
    simp only [enqueue]
    split
    · exact (ih.cons first).trans (List.Perm.swap e first rest)
    · exact List.Perm.refl _

theorem enqueue_sorted {e : Sleeper} {queue : List Sleeper}
    (h : queue.Pairwise fun a b => a.before b)
    (hnew : ∀ x ∈ queue, x.order ≠ e.order) : (enqueue e queue).Pairwise fun a b => a.before b := by
  induction queue with
  | nil => simp [enqueue]
  | cons first rest ih =>
    have hrest := List.pairwise_cons.mp h
    simp only [enqueue]
    split <;> rename_i hfirst
    · refine List.pairwise_cons.mpr ⟨fun x hx => ?_,
        ih hrest.2 fun x hx => hnew x (List.mem_cons_of_mem _ hx)⟩
      obtain rfl | hx := List.mem_cons.mp ((enqueue_perm e rest).mem_iff.mp hx)
      · exact hfirst
      · exact hrest.1 x hx
    · have hbefore := Sleeper.before_of_not_before (hnew first List.mem_cons_self) hfirst
      refine List.pairwise_cons.mpr ⟨fun x hx => ?_, h⟩
      obtain rfl | hx := List.mem_cons.mp hx
      · exact hbefore
      · exact Sleeper.before_trans hbefore (hrest.1 x hx)

end Scheduler

/-! ### The books -/

/-- The books of a scheduler, with the contexts that are active, innermost first, those adrift, and
the number of contexts ever created. -/
structure Ledger (active : List ContextId) (adrift : List Context) (s : Scheduler) (contexts : Nat)
    (log : List Milestone) : Prop where
  lawful : Lawful log
  tick : s.tick = counter log
  filed : s.filed = filings log
  queue : s.sleepers.Perm (pending log)
  sorted : s.sleepers.Pairwise fun a b => a.before b
  known : ∀ id st, standing id log = some st → id ≤ contexts
  runs : ∀ id, standing id log = some .running ↔ id ∈ active
  active_nodup : active.Nodup
  parked : ∀ id p, s.parked[id]? = some p →
    p.context.id = id ∧ standing id log = some (.stopped p.context.state) ∧
      ∃ w, p.context.state = .deferred w
  floats : ∀ c ∈ adrift,
    standing c.id log = some (.stopped c.state) ∧ (∃ w, c.state = .deferred w) ∧
      s.parked[c.id]? = none
  adrift_nodup : (adrift.map Context.id).Nodup
  kept : ∀ id w, standing id log = some (.stopped (.deferred w)) →
    (s.parked[id]?).isSome ∨ id ∈ adrift.map Context.id
  asleep : ∀ e ∈ pending log, (s.parked[e.context]?).isSome
  sleeps : ∀ id p n, s.parked[id]? = some p → p.context.state = .deferred (.ticks n) →
    ∃ e ∈ pending log, e.context = id
  recent : ∀ c ∈ adrift, ∀ n, c.state = .deferred (.ticks n) →
    wakes c.id log = some ((counter log).toNat + max n.toNat 1)

namespace Ledger

variable {active : List ContextId} {adrift : List Context} {s : Scheduler} {contexts : Nat}
  {log : List Milestone}

theorem start (contexts : Nat) : Ledger [] [] {} contexts [] where
  lawful := trivial
  tick := rfl
  filed := rfl
  queue := List.Perm.refl _
  sorted := List.Pairwise.nil
  known := by simp [standing]
  runs := by simp [standing]
  active_nodup := List.Pairwise.nil
  parked := by simp
  floats := by simp
  adrift_nodup := List.Pairwise.nil
  kept := by simp [standing]
  asleep := by simp [pending]
  sleeps := by simp
  recent := by simp

theorem perm (h : Ledger active adrift s contexts log) {adrift' : List Context}
    (hperm : adrift.Perm adrift') :
    Ledger active adrift' s contexts log :=
  { h with
    floats := fun c hc => h.floats c (hperm.mem_iff.mpr hc)
    adrift_nodup := (hperm.map Context.id).nodup_iff.mp h.adrift_nodup
    kept := fun id w hw => (h.kept id w hw).imp_right (hperm.map Context.id).mem_iff.mp
    recent := fun c hc => h.recent c (hperm.mem_iff.mpr hc) }

/-- Whoever stands anywhere was created before. -/
theorem new (h : Ledger active adrift s contexts log) : standing (contexts + 1) log = none := by
  rw [Option.eq_none_iff_forall_ne_some]
  intro st hst
  exact Nat.not_succ_le_self contexts (h.known _ st hst)

theorem created (h : Ledger active adrift s contexts log) :
    Ledger ((contexts + 1) :: active) adrift s (contexts + 1) (.created (contexts + 1) :: log) := by
  have hnew := h.new
  have hother (id : ContextId) (st : Standing) (hst : standing id log = some st) :
      standing id (.created (contexts + 1) :: log) = some st := by
    have hne : contexts + 1 ≠ id := fun heq => by
      rw [← heq, hnew] at hst
      cases hst
    simpa only [standing, hne, if_false] using hst
  have hback (id : ContextId) (st : ContextState)
      (hst : standing id (.created (contexts + 1) :: log) = some (.stopped st)) :
      standing id log = some (.stopped st) := by
    rw [standing] at hst
    split at hst
    · cases hst
    · exact hst
  exact {
    lawful := ⟨h.lawful, hnew⟩
    tick := h.tick
    filed := h.filed
    queue := h.queue
    sorted := h.sorted
    known := fun id st hst => by
      rw [standing] at hst
      split at hst <;> rename_i hc
      · exact Nat.le_of_eq hc.symm
      · exact Nat.le_succ_of_le (h.known id st hst)
    runs := fun id => by
      rw [standing, List.mem_cons]
      split <;> rename_i hc
      · simp [hc]
      · rw [h.runs, or_iff_right (Ne.symm hc)]
    active_nodup :=
      List.nodup_cons.mpr ⟨fun hmem => by simp [← h.runs, hnew] at hmem, h.active_nodup⟩
    parked := fun id p hp => by
      obtain ⟨hid, hst, hw⟩ := h.parked id p hp
      exact ⟨hid, hother id _ hst, hw⟩
    floats := fun c hc => by
      obtain ⟨hst, hw⟩ := h.floats c hc
      exact ⟨hother c.id _ hst, hw⟩
    adrift_nodup := h.adrift_nodup
    kept := fun id w hw => h.kept id w (hback id _ hw)
    asleep := h.asleep
    sleeps := h.sleeps
    recent := fun c hc n hn => by
      have hw := h.recent c hc n hn
      have hne : contexts + 1 ≠ c.id := fun heq => by
        have hst := (h.floats c hc).1
        rw [← heq, hnew] at hst
        cases hst
      simpa only [wakes, counter, hne, if_false] using hw }

/-- An active context is neither parked nor adrift. -/
theorem absent_of_active (h : Ledger active adrift s contexts log) {id : ContextId}
    (hid : id ∈ active) :
    s.parked[id]? = none ∧ id ∉ adrift.map Context.id := by
  have hrun := (h.runs id).mpr hid
  constructor
  · rw [Option.eq_none_iff_forall_ne_some]
    intro p hp
    exact absurd (hrun.symm.trans (h.parked id p hp).2.1) (by simp)
  · intro hmem
    obtain ⟨c, hc, rfl⟩ := List.mem_map.mp hmem
    exact absurd (hrun.symm.trans (h.floats c hc).1) (by simp)

/-- A context that stops is adrift unless it is finished. -/
theorem stopped {c : Context} (h : Ledger (c.id :: active) adrift s contexts log)
    (hready : c.state ≠ .ready) :
    Ledger active (if c.isFinished then adrift else c :: adrift) s contexts
      (.stopped c.id c.state :: log) := by
  have hrun : standing c.id log = some .running := (h.runs c.id).mpr List.mem_cons_self
  obtain ⟨hparked, hadrift⟩ := h.absent_of_active List.mem_cons_self
  obtain ⟨hinactive, hnodup⟩ := List.nodup_cons.mp h.active_nodup
  -- The milestone is about `c` alone. Nobody who is parked or adrift is `c`, so that their entries
  -- stay right.
  have hother {id : ContextId} (hne : id ≠ c.id) :
      standing id (.stopped c.id c.state :: log) = standing id log ∧
        wakes id (.stopped c.id c.state :: log) = wakes id log := by
    simp [standing, wakes, Ne.symm hne]
  have hdrifter {d : Context} (hd : d ∈ adrift) : d.id ≠ c.id := fun heq =>
    hadrift (List.mem_map.mpr ⟨d, hd, heq⟩)
  have hself : standing c.id (.stopped c.id c.state :: log) = some (.stopped c.state) := if_pos rfl
  have hfloats {d : Context} (hd : d ∈ adrift) :
      standing d.id (.stopped c.id c.state :: log) = some (.stopped d.state) ∧
      (∃ w, d.state = .deferred w) ∧ s.parked[d.id]? = none := by
    rw [(hother (hdrifter hd)).1]
    exact h.floats d hd
  have hrecent {d : Context} (hd : d ∈ adrift) (n : UInt64) (hn : d.state = .deferred (.ticks n)) :
      wakes d.id (.stopped c.id c.state :: log) = some ((counter log).toNat + max n.toNat 1) := by
    rw [(hother (hdrifter hd)).2]
    exact h.recent d hd n hn
  have hmem (d : Context) : d ∈ (if c.isFinished then adrift else c :: adrift) ↔
      d ∈ adrift ∨ d = c ∧ ∃ w, c.state = .deferred w := by
    cases hstate : c.state <;> simp_all [Context.isFinished, or_comm]
  exact {
    lawful := ⟨h.lawful, hrun, hready⟩
    tick := h.tick
    filed := h.filed
    queue := h.queue
    sorted := h.sorted
    known := fun id st hst => by
      by_cases hid : id = c.id
      · exact hid ▸ h.known c.id _ hrun
      · exact h.known id st ((hother hid).1 ▸ hst)
    runs := fun id => by
      by_cases hid : id = c.id
      · subst hid
        simp [hself, hinactive]
      · rw [(hother hid).1, h.runs, List.mem_cons, or_iff_right hid]
    active_nodup := hnodup
    parked := fun id p hp => by
      have hid : id ≠ c.id := fun heq => by simp [heq, hparked] at hp
      rw [(hother hid).1]
      exact h.parked id p hp
    floats := fun d hd => by
      obtain hd | ⟨rfl, hw⟩ := (hmem d).mp hd
      · exact hfloats hd
      · exact ⟨hself, hw, hparked⟩
    adrift_nodup := by
      split
      · exact h.adrift_nodup
      · exact List.nodup_cons.mpr ⟨hadrift, h.adrift_nodup⟩
    kept := fun id w hw => by
      by_cases hid : id = c.id
      · subst hid
        rw [hself, Option.some.injEq, Standing.stopped.injEq] at hw
        exact Or.inr (List.mem_map.mpr ⟨c, (hmem c).mpr (Or.inr ⟨rfl, w, hw⟩), rfl⟩)
      · refine (h.kept id w ((hother hid).1 ▸ hw)).imp_right fun hid => ?_
        obtain ⟨d, hd, rfl⟩ := List.mem_map.mp hid
        exact List.mem_map.mpr ⟨d, (hmem d).mpr (Or.inl hd), rfl⟩
    asleep := h.asleep
    sleeps := h.sleeps
    recent := fun d hd n hn => by
      obtain hd | ⟨rfl, _⟩ := (hmem d).mp hd
      · exact hrecent hd n hn
      · simp [wakes, hn, ContextState.sleep?, counter] }

/-- Nobody's place changes when a completion is run. -/
theorem completed (h : Ledger active adrift s contexts log) {id : ContextId} {v : Value}
    (hfits : Fits (.completed id v) log) :
    Ledger active adrift s contexts (.completed id v :: log) :=
  { h with lawful := ⟨h.lawful, hfits⟩ }

/-! ### Parking -/

theorem parked_file (s : Scheduler) (p : Parked) (id : ContextId) :
    (s.file p).parked[id]? = if p.context.id = id then some p else s.parked[id]? := by
  simp [Scheduler.file, Std.ExtTreeMap.getElem?_insert]

section Park

variable {p : Parked} (h : Ledger active (p.context :: adrift) s contexts log)
include h

theorem ne_of_adrift {c : Context} (hc : c ∈ adrift) : p.context.id ≠ c.id := fun heq =>
  (List.nodup_cons.mp h.adrift_nodup).1 (List.mem_map.mpr ⟨c, hc, heq.symm⟩)

theorem parked_of_file {id : ContextId} {q : Parked} (hq : (s.file p).parked[id]? = some q) :
    q.context.id = id ∧ standing id log = some (.stopped q.context.state) ∧
    ∃ w, q.context.state = .deferred w := by
  rw [parked_file] at hq
  split at hq <;> rename_i hid
  · obtain rfl := Option.some.inj hq
    obtain ⟨hst, hw, _⟩ := h.floats p.context List.mem_cons_self
    exact ⟨hid, hid ▸ hst, hw⟩
  · exact h.parked id q hq

theorem floats_of_file {c : Context} (hc : c ∈ adrift) :
    standing c.id log = some (.stopped c.state) ∧ (∃ w, c.state = .deferred w) ∧
    (s.file p).parked[c.id]? = none := by
  rw [parked_file, if_neg (h.ne_of_adrift hc)]
  exact h.floats c (List.mem_cons_of_mem _ hc)

theorem kept_of_file {id : ContextId} {w : Wait}
    (hw : standing id log = some (.stopped (.deferred w))) :
    ((s.file p).parked[id]?).isSome ∨ id ∈ adrift.map Context.id := by
  rw [parked_file]
  by_cases hid : p.context.id = id
  · exact Or.inl (by simp [hid])
  · rw [if_neg hid]
    refine (h.kept id w hw).imp_right fun hmem => ?_
    rw [List.map_cons, List.mem_cons] at hmem
    exact hmem.resolve_left (Ne.symm hid)

theorem asleep_of_file {e : Sleeper} (he : e ∈ pending log) :
    ((s.file p).parked[e.context]?).isSome := by
  rw [parked_file]
  split
  · rfl
  · exact h.asleep e he

/-- A context that waits for the outside is parked. -/
theorem waiting (hp : p.context.state = .deferred .external) :
    Ledger active adrift (s.file p) contexts log :=
  { h with
    parked := fun id q hq => h.parked_of_file hq
    floats := fun c hc => h.floats_of_file hc
    adrift_nodup := (List.nodup_cons.mp h.adrift_nodup).2
    kept := fun id w hw => h.kept_of_file hw
    asleep := fun e he => h.asleep_of_file he
    sleeps := fun id q n hq hn => by
      rw [parked_file] at hq
      split at hq
      · obtain rfl := Option.some.inj hq
        simp [hp] at hn
      · exact h.sleeps id q n hq hn
    recent := fun c hc => h.recent c (List.mem_cons_of_mem _ hc) }

/-- A context that goes to sleep is parked and put on the queue. -/
theorem sleeping {n : UInt64} (hp : p.context.state = .deferred (.ticks n))
    (hrange : s.due n < UInt64.size) :
    Ledger active adrift
      { s.file p with
        filed := s.filed + 1
        sleepers := Scheduler.enqueue ⟨.ofNat (s.due n), s.filed + 1, p.context.id⟩ s.sleepers }
      contexts (.filed p.context.id (.ofNat (s.due n)) :: log) := by
  have hhead := List.mem_cons_self (a := p.context) (l := adrift)
  have hwakes := h.recent p.context hhead n hp
  have hat : wakes p.context.id log = some (UInt64.ofNat (s.due n)).toNat := by
    rw [UInt64.toNat_ofNat_of_lt' hrange, hwakes, Scheduler.due, h.tick]
  have hfree : ∀ e ∈ pending log, e.context ≠ p.context.id := fun e he heq => by
    have hnone := (h.floats p.context hhead).2.2
    simpa [heq, hnone] using h.asleep e he
  exact {
    lawful := ⟨h.lawful, hat, hfree⟩
    tick := h.tick
    filed := congrArg (· + 1) h.filed
    queue := by
      rw [pending, ← h.filed]
      exact (Scheduler.enqueue_perm _ _).trans (h.queue.cons _)
    sorted := Scheduler.enqueue_sorted h.sorted fun e he => by
      have hle := order_le_filings (h.queue.mem_iff.mp he)
      rw [← h.filed] at hle
      exact Nat.ne_of_lt (Nat.lt_succ_of_le hle)
    known := h.known
    runs := h.runs
    active_nodup := h.active_nodup
    parked := fun id q hq => h.parked_of_file hq
    floats := fun c hc => h.floats_of_file hc
    adrift_nodup := (List.nodup_cons.mp h.adrift_nodup).2
    kept := fun id w hw => h.kept_of_file hw
    asleep := fun e he => by
      obtain rfl | he := List.mem_cons.mp he
      · show ((s.file p).parked[p.context.id]?).isSome
        simp [parked_file]
      · exact h.asleep_of_file he
    sleeps := fun id q m hq hm => by
      have hq : (s.file p).parked[id]? = some q := hq
      rw [parked_file] at hq
      split at hq <;> rename_i hid
      · exact ⟨_, List.mem_cons_self, hid⟩
      · obtain ⟨e, he, hcontext⟩ := h.sleeps id q m hq hm
        exact ⟨e, List.mem_cons_of_mem _ he, hcontext⟩
    recent := fun c hc => h.recent c (List.mem_cons_of_mem _ hc) }

end Park

/-! ### Taking up again -/

theorem resumed (h : Ledger active adrift s contexts log) {id : ContextId} {p : Parked}
    (hp : s.parked[id]? = some p) (hfits : Fits (.resumed id) log) {sleepers : List Sleeper}
    (hqueue : sleepers.Perm (pending (.resumed id :: log)))
    (hsorted : sleepers.Pairwise fun a b => a.before b) :
    Ledger (id :: active) adrift { s with sleepers, parked := s.parked.erase id } contexts
      (.resumed id :: log) := by
  obtain ⟨hid, hstanding, _⟩ := h.parked id p hp
  have hinactive : id ∉ active :=
    fun hmem => absurd (hstanding.symm.trans ((h.runs id).mpr hmem)) (by simp)
  have herase (id' : ContextId) : (s.parked.erase id)[id']? = if id = id' then none
      else s.parked[id']? := by
    simp [Std.ExtTreeMap.getElem?_erase]
  have hother {id' : ContextId} (hne : id' ≠ id) :
      standing id' (.resumed id :: log) = standing id' log ∧ wakes id' (.resumed id :: log) =
        wakes id' log := by
    simp [standing, wakes, Ne.symm hne]
  have hself : standing id (.resumed id :: log) = some .running := if_pos rfl
  have hdrifter {c : Context} (hc : c ∈ adrift) : c.id ≠ id := fun heq => by
    have hnone := (h.floats c hc).2.2
    simp [heq, hp] at hnone
  exact {
    lawful := ⟨h.lawful, hfits⟩
    tick := h.tick
    filed := h.filed
    queue := hqueue
    sorted := hsorted
    known := fun id' st hst => by
      by_cases hid' : id' = id
      · exact hid' ▸ h.known id _ hstanding
      · exact h.known id' st ((hother hid').1 ▸ hst)
    runs := fun id' => by
      by_cases hid' : id' = id
      · simp [hid', hself]
      · rw [(hother hid').1, h.runs, List.mem_cons, or_iff_right hid']
    active_nodup := List.nodup_cons.mpr ⟨hinactive, h.active_nodup⟩
    parked := fun id' q hq => by
      rw [herase] at hq
      split at hq <;> rename_i hid'
      · cases hq
      · rw [(hother (Ne.symm hid')).1]
        exact h.parked id' q hq
    floats := fun c hc => by
      rw [(hother (hdrifter hc)).1, herase, if_neg (Ne.symm (hdrifter hc))]
      exact h.floats c hc
    adrift_nodup := h.adrift_nodup
    kept := fun id' w hw => by
      by_cases hid' : id' = id
      · rw [hid', hself] at hw
        cases hw
      · rw [herase, if_neg (Ne.symm hid')]
        exact h.kept id' w ((hother hid').1 ▸ hw)
    asleep := fun e he => by
      obtain ⟨he, hne⟩ := List.mem_filter.mp he
      rw [herase, if_neg (Ne.symm (of_decide_eq_true hne))]
      exact h.asleep e he
    sleeps := fun id' q n hq hn => by
      rw [herase] at hq
      split at hq <;> rename_i hid'
      · cases hq
      · obtain ⟨e, he, rfl⟩ := h.sleeps id' q n hq hn
        exact ⟨e, List.mem_filter.mpr ⟨he, decide_eq_true (Ne.symm hid')⟩, rfl⟩
    recent := fun c hc n hn => by
      rw [(hother (hdrifter hc)).2]
      exact h.recent c hc n hn }

/-- The first of the queue is parked under its own number, and it is its turn. -/
theorem first (h : Ledger active adrift s contexts log) {next : Sleeper} {rest : List Sleeper}
    (hs : s.sleepers = next :: rest) (hdue : next.wakeAt ≤ s.tick) :
    ∃ p, s.parked[next.context]? = some p ∧ (∃ w, wakes next.context log = some w) ∧
      Ledger (next.context :: active) adrift
        { s with sleepers := rest, parked := s.parked.erase next.context }
        contexts (.resumed next.context :: log) := by
  have hsorted := h.sorted
  have hqueue := h.queue
  rw [hs] at hsorted hqueue
  obtain ⟨hfirst, hrest⟩ := List.pairwise_cons.mp hsorted
  have hnext : next ∈ pending log := hqueue.mem_iff.mp List.mem_cons_self
  obtain ⟨p, hp⟩ := Option.isSome_iff_exists.mp (h.asleep next hnext)
  have hturn : ∀ e ∈ pending log, e = next ∨ next.before e := fun e he =>
    (List.mem_cons.mp (hqueue.mem_iff.mpr he)).imp id (hfirst e)
  have hapart : ∀ e ∈ rest, e.context ≠ next.context := fun e he heq => by
    have hsame := pending_unique h.lawful (hqueue.mem_iff.mp (List.mem_cons_of_mem _ he)) hnext heq
    exact Sleeper.not_before_self next (hsame ▸ hfirst e he)
  have hleft : rest.Perm (pending (.resumed next.context :: log)) := by
    have hfilter := hqueue.filter (·.context ≠ next.context)
    rw [List.filter_cons_of_neg (by simp),
      List.filter_eq_self.mpr fun e he => by simpa using hapart e he] at hfilter
    exact hfilter
  refine ⟨p, hp, ⟨_, wakes_of_pending h.lawful hnext⟩,
    h.resumed hp (Or.inr ⟨next, hnext, rfl, ?_, hturn⟩) hleft hrest⟩
  exact h.tick ▸ hdue

/-- A context that waits for the outside is not on the queue. -/
theorem woken (h : Ledger active adrift s contexts log) {id : ContextId} {p : Parked}
    (hp : s.parked[id]? = some p) (hstate : p.context.state = .deferred .external) :
    Ledger (id :: active) adrift { s with parked := s.parked.erase id } contexts
      (.resumed id :: log) := by
  have hstanding := (h.parked id p hp).2.1
  rw [hstate] at hstanding
  have hfree : (pending log).filter (·.context ≠ id) = pending log := by
    refine List.filter_eq_self.mpr fun e he => ?_
    obtain ⟨n, hasleep⟩ := standing_of_pending h.lawful he
    simp only [ne_eq, decide_not, Bool.not_eq_true', decide_eq_false_iff_not]
    intro heq
    rw [heq, hstanding] at hasleep
    simp at hasleep
  exact h.resumed hp (Or.inl hstanding) (by rw [pending, hfree]; exact h.queue) h.sorted

/-- With nobody adrift, whoever is asleep is on the queue. -/
theorem pending_of_wakes (h : Ledger active [] s contexts log) {id : ContextId} {w : Nat}
    (hw : wakes id log = some w) :
    ∃ e ∈ pending log, e.context = id := by
  obtain ⟨n, hasleep⟩ := standing_of_wakes hw
  obtain hsome | hadrift := h.kept id _ hasleep
  · obtain ⟨p, hp⟩ := Option.isSome_iff_exists.mp hsome
    have hstanding := (h.parked id p hp).2.1
    rw [hasleep, Option.some.injEq, Standing.stopped.injEq] at hstanding
    exact h.sleeps id p n hp hstanding.symm
  · cases hadrift

/-- With nobody adrift and nobody due, all is calm. -/
theorem calm (h : Ledger active [] s contexts log) (hdue : ∀ e ∈ s.sleepers, s.tick < e.wakeAt) :
    Calm log := by
  intro id w hw
  obtain ⟨e, he, rfl⟩ := h.pending_of_wakes hw
  obtain rfl : w = e.wakeAt.toNat := Option.some.inj (hw.symm.trans (wakes_of_pending h.lawful he))
  rw [← h.tick]
  exact UInt64.lt_iff_toNat_lt.mp (hdue e (h.queue.mem_iff.mpr he))

theorem ticked (h : Ledger active [] s contexts log) (hcalm : Calm log) :
    Ledger active [] { s with tick := s.tick + 1 } contexts (.ticked (s.tick + 1) :: log) :=
  { h with
    lawful := ⟨h.lawful, by rw [h.tick], hcalm⟩
    tick := rfl
    recent := fun c hc => by cases hc }

end Ledger

end ProcEngine
