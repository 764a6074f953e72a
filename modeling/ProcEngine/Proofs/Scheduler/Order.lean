import ProcEngine.Proofs.Scheduler.Filing
/-!
# The order of turns

Of two contexts that are due on the same tick, the one that went to sleep first is resumed first.
There is one exception: a context that went to sleep under a call and has not been adopted yet is
overtaken by one that the scheduler drives, for this one is filed at once.
-/

namespace ProcEngine

namespace Chronicle

variable {started : List ContextId} {a b c : ContextId} {n k : UInt64} {t : UInt64} {w : Nat}
  {earlier between later log : List Milestone}

/-- The tick at which a context is due that goes to sleep for `n` ticks, as a number without
bound. -/
def due (n : UInt64) (log : List Milestone) : Nat := (counter log).toNat + max n.toNat 1

/-! ### Filings -/

theorem wakes_stopped : wakes c (.stopped c (.deferred (.ticks n)) :: log) = some (due n log) := by
  rw [wakes, if_pos rfl]
  rfl

theorem pending_append {e : Sleeper} (he : e ∈ pending (later ++ log)) :
    e ∈ pending log ∨ ∃ since before, later = since ++ .filed e.context e.wakeAt :: before := by
  induction later with
  | nil => exact Or.inl he
  | cons m later ih =>
    have hlater (he : e ∈ pending (later ++ log)) :
        e ∈ pending log ∨ ∃ since before, m :: later =
          since ++ .filed e.context e.wakeAt :: before := by
      refine (ih he).imp_right ?_
      rintro ⟨since, before, rfl⟩
      exact ⟨m :: since, before, rfl⟩
    cases m with
    | filed c t =>
      obtain rfl | he := List.mem_cons.mp he
      · exact Or.inr ⟨[], later, rfl⟩
      · exact hlater he
    | resumed c => exact hlater (List.mem_filter.mp he).1
    | created c | stopped c s | completed c v | ticked t => exact hlater he

/-- Whoever is asleep is filed under the tick at which it is due. -/
theorem filed_at_due (later : List Milestone) (h : Lawful (.filed c t :: (later ++ log)))
    (hw : wakes c log = some w) (hno : .resumed c ∉ later) : t.toNat = w :=
  Option.some.inj (h.2.1.symm.trans (wakes_of_not_resumed h.1 hno hw))

theorem filed_of_resumed (h : Lawful (.resumed c :: (later ++ log))) (hw : wakes c log = some w)
    (hfree : ∀ e ∈ pending log, e.context ≠ c) (hno : .resumed c ∉ later) :
    ∃ t since before, t.toNat = w ∧ later = since ++ .filed c t :: before := by
  have hasleep := wakes_of_not_resumed h.1 hno hw
  obtain hexternal | ⟨e, he, rfl, _⟩ := h.2
  · obtain ⟨n, hstanding⟩ := standing_of_wakes hasleep
    exact absurd (hstanding.symm.trans hexternal) (by simp)
  · obtain rfl := Option.some.inj (hasleep.symm.trans (wakes_of_pending h.1 he))
    obtain hpending | ⟨since, before, hfiled⟩ := pending_append he
    · exact absurd rfl (hfree e hpending)
    · exact ⟨_, since, before, rfl, hfiled⟩

theorem free_of_stopped {s : ContextState} (h : Lawful (.stopped c s :: log)) :
    ∀ e ∈ pending (.stopped c s :: log), e.context ≠ c := by
  rintro e he rfl
  have he : e ∈ pending log := he
  obtain ⟨n, hasleep⟩ := standing_of_pending h.1 he
  exact absurd (hasleep.symm.trans h.2.1) (by simp)

theorem not_unfiled_of_stopped {s : ContextState} (h : Lawful (.stopped c s :: log)) :
    c ∉ unfiled log := by
  intro hc
  obtain ⟨⟨w, hw⟩, _⟩ := asleep_of_unfiled h.1 hc
  obtain ⟨n, hasleep⟩ := standing_of_wakes hw
  exact absurd (hasleep.symm.trans h.2.1) (by simp)

/-! ### Who is filed first -/

theorem filed_of_driven {m : Milestone}
    (h : Orderly started (m :: (later ++ .stopped c (.deferred (.ticks n)) :: log)))
    (hdriven : Driven started c log) (hm : ∀ t, m ≠ .filed c t) :
    ∃ t since, later = since ++ [.filed c t] := by
  have hdriven : Driven started c (.stopped c (.deferred (.ticks n)) :: log) :=
    (driven_cons (by simp)).mpr hdriven
  obtain rfl | ⟨since, m', rfl⟩ := later.eq_nil_or_concat
  · obtain ⟨t, heq⟩ := h.2.prompt c n rfl hdriven
    exact absurd heq (hm t)
  · have horderly : Orderly started (m' :: .stopped c (.deferred (.ticks n)) :: log) := by
      have hbefore := h.1
      rw [List.concat_eq_append, List.append_assoc] at hbefore
      exact hbefore.of_append
    obtain ⟨t, rfl⟩ := horderly.2.prompt c n rfl hdriven
    exact ⟨t, since, by rw [List.concat_eq_append]⟩

theorem unfiled_of_not_filed (hno : ∀ t, .filed c t ∉ later) (hc : c ∈ unfiled log) :
    c ∈ unfiled (later ++ log) := by
  induction later with
  | nil => exact hc
  | cons m later ih =>
    have hbefore := ih fun t ht => hno t (List.mem_cons_of_mem _ ht)
    cases m with
    | filed c' t =>
      refine List.mem_filter.mpr ⟨hbefore, decide_eq_true ?_⟩
      rintro rfl
      exact hno t List.mem_cons_self
    | stopped c' s =>
      cases s with
      | deferred v =>
        cases v with
        | ticks n => exact List.mem_cons_of_mem _ hbefore
        | external => exact hbefore
      | ready | returned | faulted why => exact hbefore
    | created c' | resumed c' | completed c' v | ticked t => exact hbefore

theorem unfiled_behind {q : List ContextId} (hlog : unfiled log = b :: q) (ha : a ∈ q)
    (hno : ∀ t, .filed a t ∉ later ∧ .filed b t ∉ later) :
    ∃ p q', unfiled (later ++ log) = p ++ b :: q' ∧ a ∈ q' ∧ ∀ x ∈ q', x ∈ q := by
  induction later with
  | nil => exact ⟨[], q, hlog, ha, fun _ hx => hx⟩
  | cons m later ih =>
    obtain ⟨p, q', heq, ha', hsub⟩ := ih fun t =>
      (hno t).imp (mt (List.mem_cons_of_mem _)) (mt (List.mem_cons_of_mem _))
    cases m with
    | filed c t =>
      have hca : a ≠ c := by
        rintro rfl
        exact (hno t).1 List.mem_cons_self
      have hcb : b ≠ c := by
        rintro rfl
        exact (hno t).2 List.mem_cons_self
      refine ⟨p.filter (· ≠ c), q'.filter (· ≠ c), ?_, ?_,
        fun x hx => hsub x (List.mem_filter.mp hx).1⟩
      · rw [List.cons_append, unfiled, heq, List.filter_append,
          List.filter_cons_of_pos (by simpa using hcb)]
      · exact List.mem_filter.mpr ⟨ha', decide_eq_true hca⟩
    | stopped c s =>
      cases s with
      | deferred v =>
        cases v with
        | ticks n => exact ⟨c :: p, q', congrArg (c :: ·) heq, ha', hsub⟩
        | external => exact ⟨p, q', heq, ha', hsub⟩
      | ready | returned | faulted why => exact ⟨p, q', heq, ha', hsub⟩
    | created c | resumed c | completed c v | ticked t => exact ⟨p, q', heq, ha', hsub⟩

/-! ### Who is resumed first -/

theorem resumed_of_filed (between : List Milestone) {first : List Milestone}
    (hlog : log = between ++ .filed a t :: first) (h : Lawful (.resumed b :: (later ++ log)))
    (hw : wakes b log = some t.toNat) (hfree : ∀ e ∈ pending log, e.context ≠ b)
    (hb : .resumed b ∉ later) : .resumed a ∈ later ∨ .resumed a ∈ between := by
  obtain ⟨t', since, before, ht, rfl⟩ := filed_of_resumed h hw hfree hb
  obtain rfl := UInt64.toNat_inj.mp ht
  subst hlog
  rw [List.append_assoc, List.cons_append, ← List.append_assoc before] at h
  obtain hm | hm := resumed_in_turn h fun hm => hb (List.mem_append_left _ hm)
  · exact Or.inl (List.mem_append_left _ hm)
  · refine (List.mem_append.mp hm).imp_left fun hm => ?_
    exact List.mem_append_right _ (List.mem_cons_of_mem _ hm)

theorem not_filed_of_filed (h : Lawful (.filed b t :: (later ++ log))) (hb : .resumed b ∉ later)
    (t' : UInt64) :
    .filed b t' ∉ later := by
  intro hm
  obtain ⟨since, before, rfl⟩ := List.append_of_mem hm
  rw [List.append_assoc, List.cons_append] at h
  have hpending :
      ⟨t', filings (before ++ log) + 1, b⟩ ∈ pending (since ++ .filed b t' :: (before ++ log)) :=
    pending_of_not_resumed List.mem_cons_self fun hm => hb (List.mem_append_left _ hm)
  exact h.2.2 _ hpending rfl

section Both

/- `a` has gone to sleep and has not been resumed when `b` goes to sleep, and both are due on the
same tick. -/
variable {first : List Milestone} {v : Nat} (ha : wakes a first = some v)
  (hb : wakes b (.stopped b (.deferred (.ticks k)) :: (between ++ first)) = some w)
  (hsame : v = w) (hasleep : .resumed a ∉ between)
include ha hb hsame hasleep

/-- If `a` has been filed by then, it is resumed first. -/
theorem resumed_first_of_filed
    (h : Lawful (.resumed b :: (later ++ .stopped b (.deferred (.ticks k)) :: (between ++ first))))
    (hlater : .resumed b ∉ later) (hfiled : .filed a t ∈ between) : .resumed a ∈ later := by
  have hstopped := h.1.of_append
  obtain ⟨after, before, rfl⟩ := List.append_of_mem hfiled
  have ht : t.toNat = w := by
    rw [← hsame]
    refine filed_at_due before ?_ ha fun hm => hasleep (by simp [hm])
    have hlog := hstopped.1
    rw [List.append_assoc] at hlog
    exact hlog.of_append
  subst ht
  have hlog : .stopped b (.deferred (.ticks k)) :: (after ++ .filed a t :: before ++ first) =
      (.stopped b (.deferred (.ticks k)) :: after) ++ .filed a t :: (before ++ first) := by simp
  obtain hm | hm := resumed_of_filed _ hlog h hb (free_of_stopped hstopped) hlater
  · exact hm
  · exact absurd ((List.mem_cons.mp hm).resolve_left (by simp)) fun hm =>
      hasleep (List.mem_append_left _ hm)

omit ha hb hsame hasleep in
theorem filed_before_filed {before : List Milestone}
    (horderly :
      Orderly started
        (.filed b t :: (before ++ .stopped b (.deferred (.ticks k)) :: (between ++ first))))
    (h : Lawful (.filed b t :: (before ++ .stopped b (.deferred (.ticks k)) :: (between ++ first))))
    (hb : .resumed b ∉ before) (hunfiled : a ∈ unfiled (between ++ first))
    (hidle : ¬ Driven started b (between ++ first)) : ∃ t, .filed a t ∈ before := by
  refine Classical.byContradiction fun hno => ?_
  obtain hdriven | hlast := horderly.2.turn b t rfl
  · refine hidle (hdriven.imp_right fun hm => ?_)
    have hm := (List.mem_append.mp hm).resolve_left hb
    exact (List.mem_cons.mp hm).resolve_left (by simp)
  · have hlog : unfiled (.stopped b (.deferred (.ticks k)) :: (between ++ first)) =
        b :: unfiled (between ++ first) :=
      rfl
    obtain ⟨p, q, heq, ha, hsub⟩ := unfiled_behind hlog hunfiled fun t' =>
      ⟨fun hm => hno ⟨t', hm⟩, not_filed_of_filed h hb t'⟩
    obtain ⟨x, q, rfl⟩ := List.exists_cons_of_ne_nil (List.ne_nil_of_mem ha)
    rw [heq, List.getLast?_append, List.getLast?_cons_cons, List.getLast?_cons,
      Option.some_or] at hlast
    refine not_unfiled_of_stopped h.1.of_append (hsub b (List.mem_of_getLast? ?_))
    rw [List.getLast?_cons]
    exact hlast

/-- If neither has been filed by then and `b` is not driven, `a` is resumed first. -/
theorem resumed_first_of_unfiled
    (horderly :
      Orderly started
        (.resumed b :: (later ++ .stopped b (.deferred (.ticks k)) :: (between ++ first))))
    (h : Lawful (.resumed b :: (later ++ .stopped b (.deferred (.ticks k)) :: (between ++ first))))
    (hlater : .resumed b ∉ later) (hunfiled : a ∈ unfiled (between ++ first))
    (hidle : ¬ Driven started b (between ++ first)) : .resumed a ∈ later := by
  refine Classical.byContradiction fun hno => ?_
  obtain ⟨t', since, before, rfl, rfl⟩ :=
    filed_of_resumed h hb (free_of_stopped h.1.of_append) hlater
  rw [List.append_assoc, List.cons_append] at h horderly
  have hbefore {c : ContextId} (hm : .resumed c ∈ before) :
      .resumed c ∈ since ++ .filed b t' :: before :=
        List.mem_append_right _ (List.mem_cons_of_mem _ hm)
  obtain ⟨t, hfiled⟩ :=
    filed_before_filed horderly.1.of_append h.1.of_append (fun hm => hlater (hbefore hm)) hunfiled
    hidle
  obtain ⟨after, x, rfl⟩ := List.append_of_mem hfiled
  have ht : t = t' := by
    rw [← UInt64.toNat_inj, ← hsame]
    have hlog := h.1.of_append.1
    rw [List.append_assoc] at hlog
    refine filed_at_due (x ++ .stopped b (.deferred (.ticks k)) :: between) ?_ ha fun hm => ?_
    · rw [List.append_assoc]
      exact hlog.of_append
    · obtain hm | hm := List.mem_append.mp hm
      · exact hno (hbefore (by simp [hm]))
      · exact hasleep ((List.mem_cons.mp hm).resolve_left (by simp))
  subst ht
  rw [List.append_assoc after] at h
  obtain hm | hm := resumed_in_turn h fun hm => hlater (List.mem_append_left _ hm)
  · exact hno (List.mem_append_left _ hm)
  · exact hno (hbefore (List.mem_append_left _ hm))

/-- If `a` has not been filed by then and `b` is driven, `b` overtakes it. -/
theorem overtaken_of_unfiled
    (horderly :
      Orderly started
        (.resumed a :: (later ++ .stopped b (.deferred (.ticks k)) :: (between ++ first))))
    (h : Lawful (.resumed a :: (later ++ .stopped b (.deferred (.ticks k)) :: (between ++ first))))
    (hlater : .resumed a ∉ later) (hunfiled : a ∈ unfiled (between ++ first))
    (hdriven : Driven started b (between ++ first)) : .resumed b ∈ later := by
  obtain ⟨t, since, rfl⟩ := filed_of_driven horderly hdriven (by simp)
  rw [List.append_assoc, List.singleton_append] at h
  have hfiled : Lawful (.filed b t :: .stopped b (.deferred (.ticks k)) :: (between ++ first)) :=
    h.1.of_append
  have hne : b ≠ a := by
    rintro rfl
    exact not_unfiled_of_stopped hfiled.1 hunfiled
  have ht : t.toNat = v := by
    rw [hsame]
    exact filed_at_due [] hfiled hb (by simp)
  have hwakes : wakes a (.filed b t :: .stopped b (.deferred (.ticks k)) :: (between ++ first)) =
      some t.toNat := by
    rw [wakes, wakes, if_neg hne, ht]
    exact wakes_of_not_resumed hfiled.1.1 hasleep ha
  have hfree :
      ∀ e ∈ pending (.filed b t :: .stopped b (.deferred (.ticks k)) :: (between ++ first)),
      e.context ≠ a := by
    intro e he
    obtain rfl | he := List.mem_cons.mp he
    · exact hne
    · exact (asleep_of_unfiled hfiled.1.1 hunfiled).2 e he
  obtain hm | hm :=
    resumed_of_filed [] rfl h hwakes hfree fun hm => hlater (List.mem_append_left _ hm)
  · exact List.mem_append_left _ hm
  · cases hm

end Both

end Chronicle

open Chronicle

/-- In the course of `deeds` two contexts go to sleep, `a` and then `b`, and `a` is still asleep
when `b` goes to sleep. Both are due on the same tick. -/
structure SleepTogether (a b : ContextId) (earlier between rest deeds : List Milestone) : Prop where
  deeds : ∃ n k, deeds = earlier ++ .stopped a (.deferred (.ticks n)) ::
      (between ++ .stopped b (.deferred (.ticks k)) :: rest) ∧
    due n earlier.reverse = due k (earlier ++ .stopped a (.deferred (.ticks n)) :: between).reverse
  asleep : .resumed a ∉ between

/-- Whenever `b` is resumed, `a` has been. -/
def ResumedFirst (a b : ContextId) (deeds : List Milestone) : Prop :=
  ∀ pre post, deeds = pre ++ .resumed b :: post → .resumed a ∈ pre

/-- When `b` goes to sleep the scheduler drives it, and `a`, which it has not driven, has not been
adopted yet. -/
structure Overtakes (started : List ContextId) (b a : ContextId)
    (earlier between : List Milestone) : Prop where
  driven : Driven started b (earlier ++ between)
  idle : ¬ Driven started a earlier
  unfiled : ∀ t, .filed a t ∉ between

theorem resumedFirst_of_first {a b : ContextId} {deeds : List Milestone}
    (h : ∀ pre post, deeds = pre ++ .resumed b :: post → .resumed b ∉ pre → .resumed a ∈ pre) :
    ResumedFirst a b deeds := by
  intro pre post hdeeds
  have hmem : .resumed b ∈ pre ++ [.resumed b] := by simp
  obtain ⟨first, later, heq, hfirst⟩ := List.eq_append_cons_of_mem hmem
  have hsub : first <+: pre := by
    refine List.prefix_of_prefix_length_le ⟨_, heq.symm⟩ (List.prefix_append pre [.resumed b]) ?_
    have hlength := congrArg List.length heq
    simp only [List.length_append, List.length_cons, List.length_nil] at hlength
    omega
  refine hsub.subset (h first (later ++ post) ?_ hfirst)
  rw [hdeeds, ← List.singleton_append, ← List.append_assoc, heq, List.append_assoc,
    List.cons_append]

theorem Chronicle.turns_of_together {started : List ContextId} {a b : ContextId}
    {earlier between rest deeds : List Milestone} (hlawful : Lawful deeds.reverse)
    (horderly : Orderly started deeds.reverse)
    (htogether : SleepTogether a b earlier between rest deeds) :
    (Overtakes started b a earlier between → ResumedFirst b a rest) ∧
      (¬ Overtakes started b a earlier between → ResumedFirst a b rest) := by
  obtain ⟨⟨n, k, rfl, hdue⟩, hasleep⟩ := htogether
  let first : List Milestone := .stopped a (.deferred (.ticks n)) :: earlier.reverse
  have ha : wakes a first = some _ := wakes_stopped
  have hb : wakes b (.stopped b (.deferred (.ticks k)) :: (between.reverse ++ first)) = some _ :=
    wakes_stopped
  have hsame : due n earlier.reverse = due k (between.reverse ++ first) := by
    rw [hdue]
    simp [first]
  have hasleep : .resumed a ∉ between.reverse := by simpa using hasleep
  -- What has happened up to the moment when one of the two is resumed.
  have hupto {c : ContextId} {pre post : List Milestone}
      (hrest : rest = pre ++ .resumed c :: post) :
      Lawful
        (.resumed c ::
          (pre.reverse ++ .stopped b (.deferred (.ticks k)) :: (between.reverse ++ first))) ∧
      Orderly started
        (.resumed c ::
          (pre.reverse ++ .stopped b (.deferred (.ticks k)) :: (between.reverse ++ first))) := by
    have hsplit : (earlier ++ .stopped a (.deferred (.ticks n)) ::
        (between ++ .stopped b (.deferred (.ticks k)) :: rest)).reverse = post.reverse ++
          .resumed c ::
            (pre.reverse ++ .stopped b (.deferred (.ticks k)) :: (between.reverse ++ first)) := by
      simp [hrest, first]
    rw [hsplit] at hlawful horderly
    exact ⟨hlawful.of_append, horderly.of_append⟩
  have hdriven : Driven started b (between.reverse ++ first) ↔
      Driven started b (earlier ++ between) := by
    simp [Driven, first, or_comm]
  have hunfiled (hno : ∀ t, .filed a t ∉ between) : a ∈ unfiled (between.reverse ++ first) :=
    unfiled_of_not_filed (by simpa using hno) List.mem_cons_self
  refine ⟨fun hovertakes => resumedFirst_of_first fun pre post hrest hfirst => ?_,
    fun hnot => resumedFirst_of_first fun pre post hrest hfirst => ?_⟩
  · obtain ⟨hlawful, horderly⟩ := hupto hrest
    rw [← List.mem_reverse] at hfirst ⊢
    exact overtaken_of_unfiled ha hb hsame hasleep horderly hlawful hfirst
      (hunfiled hovertakes.unfiled)
      (hdriven.mpr hovertakes.driven)
  · obtain ⟨hlawful, horderly⟩ := hupto hrest
    rw [← List.mem_reverse] at hfirst ⊢
    by_cases hfiled : ∃ t, .filed a t ∈ between
    · obtain ⟨t, hfiled⟩ := hfiled
      exact resumed_first_of_filed ha hb hsame hasleep hlawful hfirst (List.mem_reverse.mpr hfiled)
    · have hno : ∀ t, .filed a t ∉ between := fun t hm => hfiled ⟨t, hm⟩
      have hidle : ¬ Driven started a earlier := by
        intro hdriven
        have hdriven : Driven started a earlier.reverse := hdriven.imp_right List.mem_reverse.mpr
        obtain ⟨t, since, heq⟩ := filed_of_driven (horderly.1.of_append) hdriven (by simp)
        exact hno t (List.mem_reverse.mp (by rw [heq]; simp))
      refine resumed_first_of_unfiled ha hb hsame hasleep horderly hlawful hfirst
        (hunfiled hno) fun hb => ?_
      exact hnot ⟨hdriven.mp hb, hidle, hno⟩

namespace Host

variable {h h' : Host} {episodes : List Episode} {a b : ContextId}
  {earlier between rest : List Milestone}

/-- Whatever a host does, of two contexts that are due on the same tick the one that went to sleep
first is resumed first, unless the other overtakes it. -/
theorem Runs.sleepers_take_turns (hfresh : h.IsFresh) (hruns : h.Runs episodes h')
    (htogether : SleepTogether a b earlier between rest (episodes.flatMap Episode.deeds)) :
    (Overtakes (started episodes) b a earlier between → ResumedFirst b a rest) ∧
      (¬ Overtakes (started episodes) b a earlier between → ResumedFirst a b rest) := by
  have hin := hfresh.inOrder
  have hchronicle := hruns.chronicle hin
  rw [hfresh.chronicle, List.append_nil] at hchronicle
  have hlawful := (hruns.inOrder hin).books.lawful
  have horderly := (hruns.tidy hin hfresh.tidy).orderly
  rw [hchronicle] at hlawful horderly
  exact turns_of_together hlawful horderly htogether

/-- Whoever goes to sleep first is resumed first, whatever the host does. -/
def SleepersInOrder (h : Host) : Prop :=
  ∀ episodes h' a b earlier between rest, h.Runs episodes h' →
  SleepTogether a b earlier between rest (episodes.flatMap Episode.deeds) → ResumedFirst a b rest

/-- A host with a proc that sleeps for one tick, and one that calls it and then sleeps for one tick
itself. -/
def nesting : Host where
  runtime := {
    procs := #[
      { signature := { name := "nap" }
        body := .routine false fun _ _ => .ask (.sleep 1) fun _ => .done .null },
      { signature := { name := "outer" }
        body := .routine false fun _ _ =>
          .ask (.host (.call ⟨1, "nap"⟩ {})) fun _ => .ask (.sleep 1) fun _ => .done .null }] }

theorem nesting_deeds : ∃ episodes h', nesting.Runs episodes h' ∧ started episodes = [1] ∧
    episodes.flatMap Episode.deeds =
      [.created 1, .created 2] ++ .stopped 2 (.deferred (.ticks 1)) ::
        ([] ++ .stopped 1 (.deferred (.ticks 1)) ::
        [.filed 1 1, .filed 2 1, .ticked 1, .resumed 1, .stopped 1 .returned, .resumed 2,
          .stopped 2 .returned]) := by
  have hperforms : ((nesting.performAll 9 [.spawn ⟨2, "outer"⟩ {}, .tick]).map fun q =>
      (started q.1, q.1.flatMap Episode.deeds)) = some ([1],
        [.created 1, .created 2, .stopped 2 (.deferred (.ticks 1)),
          .stopped 1 (.deferred (.ticks 1)), .filed 1 1,
          .filed 2 1, .ticked 1, .resumed 1, .stopped 1 .returned, .resumed 2,
            .stopped 2 .returned]) := by
    decide +kernel
  obtain ⟨⟨episodes, h'⟩, hperform, heq⟩ := Option.map_eq_some_iff.mp hperforms
  obtain ⟨hstarted, hdeeds⟩ := Prod.mk.inj heq
  exact ⟨episodes, h', runs_of_performAll hperform, hstarted, hdeeds⟩

theorem nested_nap_is_overtaken : ∃ episodes h' earlier between rest, nesting.Runs episodes h' ∧
    SleepTogether 2 1 earlier between rest (episodes.flatMap Episode.deeds) ∧
    Overtakes (started episodes) 1 2 earlier between ∧ ResumedFirst 1 2 rest := by
  obtain ⟨episodes, h', hruns, hstarted, hdeeds⟩ := nesting_deeds
  have htogether : SleepTogether 2 1 _ _ _ (episodes.flatMap Episode.deeds) :=
    ⟨⟨1, 1, hdeeds, rfl⟩, by simp⟩
  have hovertakes : Overtakes (started episodes) 1 2 [.created 1, .created 2] [] :=
    ⟨Or.inl (by simp [hstarted]), by simp [Driven, hstarted], by simp⟩
  have hturns := Runs.sleepers_take_turns ⟨rfl, rfl, rfl⟩ hruns htogether
  exact ⟨episodes, h', _, _, _, hruns, htogether, hovertakes, hturns.1 hovertakes⟩

theorem sleepers_out_of_order : nesting.IsFresh ∧ ¬ nesting.SleepersInOrder := by
  refine ⟨⟨rfl, rfl, rfl⟩, fun horder => ?_⟩
  obtain ⟨episodes, h', hruns, _, hdeeds⟩ := nesting_deeds
  have hfirst := horder episodes h' 2 1 _ _ _ hruns ⟨⟨1, 1, hdeeds, rfl⟩, by simp⟩
  have hresumed := hfirst [.filed 1 1, .filed 2 1, .ticked 1] _ rfl
  simp at hresumed

end Host

end ProcEngine
