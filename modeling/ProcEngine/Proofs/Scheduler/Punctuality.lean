import ProcEngine.Proofs.Scheduler.Runs
import ProcEngine.Proofs.Scheduler.Termination
/-!
# The scheduler is punctual

Every sleeper is resumed by the tick at which it is due: no earlier, no later, and once. Of what is
due on the same tick, the first filed is resumed first. A tick comes to an end if everybody who gets
a turn hands it back.
-/

namespace ProcEngine

open Chronicle

/-- The episode is the tick that raises the counter to `w`. -/
def Episode.RaisesTo (e : Episode) (w : Nat) : Prop := e.operation.isTick ∧ e.tick.toNat = w

/-- What happens in an episode only once the counter has moved on. -/
def Milestone.IsLate : Milestone → Prop
  | .filed .. | .ticked _ => False
  | .created _ | .resumed _ | .stopped .. | .completed .. => True

namespace Host

namespace Passes

variable {h h' : Host} {e : Episode} {pre post : List Milestone} {m : Milestone} {id : ContextId}

theorem turns_at (hpasses : h.Passes e h') (htick : e.operation.isTick)
    (hdeeds : e.deeds = pre ++ m :: post)
    (hlate : m.IsLate) : ∃ log filings, pre.reverse = log ++ .ticked e.tick :: filings ∧
      Turns (.ticked e.tick :: (filings ++ h.runtime.chronicle)) (post.reverse ++ m :: log) := by
  obtain ⟨log, filings, hlog, hturns, hfilings, _⟩ := hpasses.turns htick
  have hsplit : e.deeds.reverse = post.reverse ++ m :: pre.reverse := by
    rw [hdeeds]
    simp
  rw [hsplit, List.append_eq_append_iff] at hlog
  obtain ⟨turns, hlog, hrest⟩ | ⟨rest, _, hrest⟩ := hlog
  · cases turns with
    | nil =>
      cases hrest
      exact hlate.elim
    | cons m' turns =>
      obtain ⟨rfl, hpre⟩ := List.cons.inj hrest
      exact ⟨turns, filings, hpre, hlog ▸ hturns⟩
  · cases rest with
    | nil =>
      cases hrest
      exact hlate.elim
    | cons t rest =>
      obtain ⟨rfl, hsuffix⟩ := List.cons.inj hrest
      have hfiling : m.IsFiling := hfilings m (hsuffix ▸ List.mem_append_right _ List.mem_cons_self)
      cases m with
      | filed c t => exact hlate.elim
      | created c | resumed c | stopped c s | ticked t | completed c v => exact hfiling.elim

theorem still_after (hpasses : h.Passes e h') (hdeeds : e.deeds = pre ++ m :: post)
    (hlate : m.IsLate) :
    Still post.reverse := by
  intro t ht
  cases htick : e.operation.isTick with
  | false =>
    refine hpasses.still htick t ?_
    rw [hdeeds]
    simp [List.mem_reverse.mp ht]
  | true =>
    obtain ⟨log, filings, _, hturns⟩ := hpasses.turns_at htick hdeeds hlate
    exact hturns.still t (List.mem_append_left _ ht)

theorem counter_eq (hpasses : h.Passes e h') (hdeeds : e.deeds = pre ++ m :: post)
    (hlate : m.IsLate) :
    counter (pre.reverse ++ h.runtime.chronicle) = e.tick := by
  have hstill := hpasses.still_after hdeeds hlate
  have hcounter := hpasses.inOrder.books.tick
  rw [hpasses.chronicle, hpasses.tick, hdeeds] at hcounter
  have hsplit : (pre ++ m :: post).reverse ++ h.runtime.chronicle =
      post.reverse ++ m :: (pre.reverse ++ h.runtime.chronicle) := by simp
  rw [hsplit, counter_append hstill] at hcounter
  cases m with
  | filed c t | ticked t => exact hlate.elim
  | created c | resumed c | stopped c s | completed c v => exact hcounter.symm

theorem lawful_at (hpasses : h.Passes e h') (hdeeds : e.deeds = pre ++ m :: post) :
    Lawful (post.reverse ++ m :: (pre.reverse ++ h.runtime.chronicle)) := by
  have hlawful := hpasses.inOrder.books.lawful
  rw [hpasses.chronicle, hdeeds] at hlawful
  simpa using hlawful

theorem wakes_of_not_resumed (hpasses : h.Passes e h') {w : Nat}
    (hw : wakes id h.runtime.chronicle = some w)
    (hno : .resumed id ∉ e.deeds) : wakes id h'.runtime.chronicle = some w := by
  have hlawful := hpasses.inOrder.books.lawful
  rw [hpasses.chronicle] at hlawful ⊢
  exact Chronicle.wakes_of_not_resumed hlawful (by simpa using hno) hw

/-- Nobody who is asleep is resumed at any tick but its own. -/
theorem tick_of_resumed (hpasses : h.Passes e h') {w : Nat}
    (hw : wakes id h.runtime.chronicle = some w)
    (hresumed : .resumed id ∈ e.deeds) : e.tick.toNat = w := by
  obtain ⟨pre, post, hdeeds, hfirst⟩ := List.eq_append_cons_of_mem hresumed
  have hlawful := (hpasses.lawful_at hdeeds).of_append
  have hasleep := Chronicle.wakes_of_not_resumed hlawful.1 (by simpa using hfirst) hw
  have hcounter := counter_of_resumed hlawful hasleep
  rwa [hpasses.counter_eq hdeeds trivial] at hcounter

section Stopped

variable {n : UInt64} (hpasses : h.Passes e h')
  (hdeeds : e.deeds = pre ++ .stopped id (.deferred (.ticks n)) :: post)
include hpasses hdeeds

theorem wakes_at_stop :
    wakes id (.stopped id (.deferred (.ticks n)) :: (pre.reverse ++ h.runtime.chronicle)) =
      some (e.tick.toNat + max n.toNat 1) := by
  have hcounter := hpasses.counter_eq hdeeds trivial
  simp [wakes, ContextState.sleep?, hcounter]

theorem asleep_of_stopped (hno : .resumed id ∉ post) :
    wakes id h'.runtime.chronicle = some (e.tick.toNat + max n.toNat 1) := by
  have hsplit : h'.runtime.chronicle =
      post.reverse ++ .stopped id (.deferred (.ticks n)) ::
        (pre.reverse ++ h.runtime.chronicle) := by
    rw [hpasses.chronicle, hdeeds]
    simp
  rw [hsplit]
  exact Chronicle.wakes_of_not_resumed (hpasses.lawful_at hdeeds) (by simpa using hno)
    (hpasses.wakes_at_stop hdeeds)

theorem wakes_of_stopped :
    .resumed id ∉ post ∧ wakes id h'.runtime.chronicle = some (e.tick.toNat + max n.toNat 1) := by
  have hno : .resumed id ∉ post := by
    intro hmem
    obtain ⟨between, rest, rfl, hfirst⟩ := List.eq_append_cons_of_mem hmem
    have hresumed : e.deeds = (pre ++ .stopped id (.deferred (.ticks n)) :: between) ++
        .resumed id :: rest := by
      rw [hdeeds]
      simp
    have hcounter' := hpasses.counter_eq hresumed trivial
    have hlawful' := (hpasses.lawful_at hresumed).of_append
    rw [List.reverse_append, List.append_assoc] at hlawful' hcounter'
    simp only [List.reverse_cons, List.append_assoc, List.cons_append, List.nil_append]
      at hlawful' hcounter'
    have hasleep' :=
      Chronicle.wakes_of_not_resumed hlawful'.1 (by simpa using hfirst)
        (hpasses.wakes_at_stop hdeeds)
    have hon := counter_of_resumed hlawful' hasleep'
    rw [hcounter'] at hon
    omega
  exact ⟨hno, hpasses.asleep_of_stopped hdeeds hno⟩

end Stopped

/-- A sleeper is resumed by the tick at which it is due, and sleeps on through any other episode. -/
theorem resumed_iff (hpasses : h.Passes e h') (hin : h.InOrder) {w : Nat}
    (hw : wakes id h.runtime.chronicle = some w) :
    (.resumed id ∈ e.deeds ↔ e.RaisesTo w) ∧
    (¬ e.RaisesTo w → wakes id h'.runtime.chronicle = some w) := by
  have hsleeps := hpasses.wakes_of_not_resumed hw
  have honly (hresumed : .resumed id ∈ e.deeds) : e.RaisesTo w := by
    have htick := hpasses.tick_of_resumed hw hresumed
    refine ⟨?_, htick⟩
    cases hop : e.operation.isTick with
    | true => rfl
    | false =>
      have hbefore := hin.calm id w hw
      have hcounter := hpasses.inOrder.books.tick
      rw [hpasses.chronicle, counter_append (hpasses.still hop), hpasses.tick] at hcounter
      rw [← hcounter, htick] at hbefore
      exact absurd hbefore (Nat.lt_irrefl w)
  refine ⟨⟨honly, fun hraises => ?_⟩, fun hraises => hsleeps fun hresumed =>
    hraises (honly hresumed)⟩
  -- After the tick nobody is due, so that the sleeper cannot have slept on.
  refine Decidable.byContradiction fun hno => ?_
  have hafter := hpasses.inOrder.calm id w (hsleeps hno)
  rw [← hpasses.inOrder.books.tick, hpasses.tick, hraises.2] at hafter
  exact Nat.lt_irrefl w hafter

/-- Nobody is resumed twice by one tick. -/
theorem count_resumed_le (hpasses : h.Passes e h') (htick : e.operation.isTick) (id : ContextId) :
    e.deeds.count (.resumed id) ≤ 1 := by
  refine Nat.le_of_not_lt fun htwice => ?_
  have hfirst : .resumed id ∈ e.deeds := List.count_pos_iff.mp (by omega)
  obtain ⟨pre, rest, hdeeds, hpre⟩ := List.eq_append_cons_of_mem hfirst
  rw [hdeeds, List.count_append, List.count_eq_zero.mpr hpre, List.count_cons_self] at htwice
  have hsecond : .resumed id ∈ rest := List.count_pos_iff.mp (by omega)
  obtain ⟨between, post, rfl, _⟩ := List.eq_append_cons_of_mem hsecond
  have hdeeds' : e.deeds = (pre ++ .resumed id :: between) ++ .resumed id :: post := by
    rw [hdeeds]
    simp
  have hreverse : (pre ++ .resumed id :: between).reverse ++ h.runtime.chronicle =
      between.reverse ++ .resumed id :: (pre.reverse ++ h.runtime.chronicle) := by simp
  have hlawful := (hpasses.lawful_at hdeeds').of_append
  obtain ⟨log, filings, hlog, hturns⟩ := hpasses.turns_at htick hdeeds' trivial
  obtain ⟨w, hasleep⟩ := hturns.wakes
  have hchronicle : log ++ .ticked e.tick :: (filings ++ h.runtime.chronicle) =
      between.reverse ++ .resumed id :: (pre.reverse ++ h.runtime.chronicle) := by
    rw [← hreverse, hlog]
    simp
  have hstill := hpasses.still_after hdeeds trivial
  rw [hchronicle] at hasleep
  rw [hreverse] at hlawful
  exact not_resumed_twice hlawful (fun t ht =>
    hstill t (by simpa using Or.inr (List.mem_reverse.mp ht))) hasleep

theorem moves (hpasses : h.Passes e h') (htick : e.operation.isTick) :
    ∃ filings deeds, e.deeds = filings ++ .ticked e.tick :: deeds ∧ (∀ m ∈ filings, m.IsFiling) ∧
      Still deeds := by
  obtain ⟨log, filings, hlog, hturns, hfilings, _⟩ := hpasses.turns htick
  refine ⟨filings.reverse, log.reverse, ?_, fun m hm => hfilings m (List.mem_reverse.mp hm),
    fun t ht => ?_⟩
  · rw [← List.reverse_reverse e.deeds, hlog]
    simp
  · exact hturns.still t (List.mem_reverse.mp ht)

theorem answer_eq (hpasses : h.Passes e h') (htick : e.operation.isTick) :
    e.answer = .ok (.resumed (e.deeds.countP Milestone.isResumption)) := by
  obtain ⟨log, filings, hlog, _, hfilings, hanswer⟩ := hpasses.turns htick
  have hnone : filings.countP Milestone.isResumption = 0 := List.countP_eq_zero.mpr fun m hm => by
    have hm := hfilings m hm
    cases m <;> simp_all [Milestone.IsFiling, Milestone.isResumption]
  rw [hanswer, ← List.countP_reverse (l := e.deeds), hlog, List.countP_append,
    List.countP_cons, hnone]
  rfl

theorem tick_eq (hpasses : h.Passes e h') (hin : h.InOrder) :
    e.tick = if e.operation.isTick then h.scheduler.tick + 1 else h.scheduler.tick := by
  have hcounter := hpasses.inOrder.books.tick
  have hlawful := hpasses.inOrder.books.lawful
  rw [hpasses.tick, hpasses.chronicle] at hcounter
  rw [hpasses.chronicle] at hlawful
  cases htick : e.operation.isTick with
  | false =>
    rw [counter_append (hpasses.still htick)] at hcounter
    rw [if_neg (by simp), hcounter, hin.books.tick]
  | true =>
    obtain ⟨log, filings, hlog, _, hfilings, _⟩ := hpasses.turns htick
    rw [hlog, List.append_assoc] at hlawful
    have hfits := hlawful.of_append.2
    have hcount : counter (filings ++ h.runtime.chronicle) = counter h.runtime.chronicle :=
      counter_append fun t ht => hfilings _ ht
    rw [if_pos rfl, hfits.1, hin.books.tick]
    exact congrArg (· + 1) hcount

end Passes

variable {h h' : Host} {episodes : List Episode}

theorem Runs.passes_of_mem (hin : h.InOrder) (hruns : Runs h episodes h') {e : Episode}
    (he : e ∈ episodes) :
    ∃ before after : Host, before.InOrder ∧ before.Passes e after := by
  obtain ⟨earlier, later, rfl⟩ := List.append_of_mem he
  obtain ⟨before, hbefore, hafter⟩ := hruns.split
  obtain ⟨after, hpasses, _⟩ := hafter.passes (hbefore.inOrder hin)
  exact ⟨before, after, hbefore.inOrder hin, hpasses⟩

theorem Runs.wakes (hin : h.InOrder) (hruns : Runs h episodes h') {id : ContextId} {w : Nat}
    (hw : wakes id h.runtime.chronicle = some w) (hno : ∀ d ∈ episodes, ¬ d.RaisesTo w) :
    wakes id h'.runtime.chronicle = some w := by
  induction hruns with
  | nil h => exact hw
  | cons hperform hrest ih =>
    have hpasses := Host.passes hin hperform
    have hasleep := (hpasses.resumed_iff hin hw).2 (hno _ List.mem_cons_self)
    exact ih hpasses.inOrder hasleep fun d hd => hno d (List.mem_cons_of_mem _ hd)

theorem Runs.tick_eq (hin : h.InOrder) (hruns : Runs h episodes h') :
    h'.scheduler.tick = h.scheduler.tick + UInt64.ofNat (episodes.countP (·.operation.isTick)) := by
  induction hruns with
  | nil h => simp
  | cons hperform hrest ih =>
    have hpasses := Host.passes hin hperform
    rw [ih hpasses.inOrder, hpasses.tick, hpasses.tick_eq hin, List.countP_cons]
    split <;> simp [UInt64.add_assoc, UInt64.add_comm]

end Host

/-- What a scheduler promises of time. -/
structure Punctual (episodes : List Episode) : Prop where
  /-- The counter shows how many ticks there have been. -/
  counts : ∀ before e after, episodes = before ++ e :: after →
    e.tick = UInt64.ofNat ((before ++ [e]).countP (·.operation.isTick))
  /-- It moves by ticks alone, and before anybody runs. -/
  moves : ∀ e ∈ episodes, if e.operation.isTick
    then ∃ filings deeds, e.deeds = filings ++ .ticked e.tick :: deeds ∧
      (∀ m ∈ filings, m.IsFiling) ∧ Still deeds
    else Still e.deeds
  /-- Whoever goes to sleep is next resumed by the tick at which it is due. -/
  onTime : ∀ before e after, episodes = before ++ e :: after → ∀ pre post id n,
    e.deeds = pre ++ .stopped id (.deferred (.ticks n)) :: post →
    .resumed id ∉ post ∧ ∀ between e' rest, after = between ++ e' :: rest →
      (∀ d ∈ between, ¬ d.RaisesTo (e.tick.toNat + max n.toNat 1)) →
      (.resumed id ∈ e'.deeds ↔ e'.RaisesTo (e.tick.toNat + max n.toNat 1))
  /-- A tick resumes nobody twice. -/
  once : ∀ e ∈ episodes, e.operation.isTick → ∀ id, e.deeds.count (.resumed id) ≤ 1
  /-- It answers how many it has resumed. -/
  answers : ∀ e ∈ episodes, e.operation.isTick →
    e.answer = .ok (.resumed (e.deeds.countP Milestone.isResumption))
  /-- Of two that are due on the same tick, the one filed first is resumed first. -/
  inTurn : ∀ earlier between later rest a b t,
    episodes.flatMap Episode.deeds = earlier ++ .filed a t :: between ++ .filed b t :: later ++
      .resumed b :: rest →
    .resumed b ∉ later → .resumed a ∈ between ++ later

namespace Host

variable {h h' : Host} {episodes : List Episode}

theorem turnsEnd_of_perform (hin : h.InOrder) {fuel : Nat} {e : Episode}
    (hperform : h.perform fuel .tick = some (e, h')) : h.scheduler.TurnsEnd h.runtime := by
  simp only [perform, Operation.act, Act.bind_apply] at hperform
  cases hrun : h.scheduler.advance fuel h.runtime with
  | ok q rt => exact Scheduler.turnsEnd_of_advance hrun
  | fault why rt =>
    have hgives := Scheduler.advance_gives fuel hin.books hin.calm
    rw [hrun] at hgives
    exact hgives.elim
  | breach b rt | exhausted =>
    rw [hrun] at hperform
    cases hperform

/-- Whatever a host does with a scheduler, everybody is resumed on time, and a tick comes to an end
if every turn in it does, unless it is broken off: by one of the turns, or by somebody adrift who
oversleeps. -/
theorem Runs.punctual (hfresh : h.IsFresh) (hruns : Runs h episodes h') :
    Punctual episodes ∧
    (h'.scheduler.TurnsEnd h'.runtime → ∃ fuel, (∃ e h'', h'.perform fuel .tick = some (e, h'')) ∨
      ∃ b rt, h'.scheduler.advance fuel h'.runtime = .breach b rt ∧
        h'.scheduler.Stalls h'.runtime b rt) := by
  have hin := hfresh.inOrder
  have hin' := hruns.inOrder hin
  have hmember {e : Episode} (he : e ∈ episodes) := hruns.passes_of_mem hin he
  refine ⟨{ counts := ?_, moves := ?_, onTime := ?_, once := ?_, answers := ?_, inTurn := ?_ },
    fun hends => ?_⟩
  · intro before e after hepisodes
    subst hepisodes
    obtain ⟨h₁, hbefore, hrest⟩ := hruns.split
    obtain ⟨h₂, hpasses, _⟩ := hrest.passes (hbefore.inOrder hin)
    rw [hpasses.tick_eq (hbefore.inOrder hin), hbefore.tick_eq hin, hfresh.scheduler,
      List.countP_append]
    cases htick : e.operation.isTick <;> simp [htick]
  · intro e he
    obtain ⟨_, _, _, hpasses⟩ := hmember he
    cases htick : e.operation.isTick with
    | true => exact hpasses.moves htick
    | false =>
      intro t ht
      exact hpasses.still htick t (List.mem_reverse.mpr ht)
  · intro before e after hepisodes pre post id n hdeeds
    subst hepisodes
    obtain ⟨h₁, hbefore, hrest⟩ := hruns.split
    obtain ⟨h₂, hpasses, hafter⟩ := hrest.passes (hbefore.inOrder hin)
    obtain ⟨hno, hasleep⟩ := hpasses.wakes_of_stopped hdeeds
    refine ⟨hno, fun between e' rest hsplit hbetween => ?_⟩
    subst hsplit
    obtain ⟨h₃, hbetween', hrest'⟩ := hafter.split
    obtain ⟨h₄, hpasses', _⟩ := hrest'.passes (hbetween'.inOrder hpasses.inOrder)
    have hasleep' := hbetween'.wakes hpasses.inOrder hasleep hbetween
    exact (hpasses'.resumed_iff (hbetween'.inOrder hpasses.inOrder) hasleep').1
  · intro e he htick id
    obtain ⟨_, _, _, hpasses⟩ := hmember he
    exact hpasses.count_resumed_le htick id
  · intro e he htick
    obtain ⟨_, _, _, hpasses⟩ := hmember he
    exact hpasses.answer_eq htick
  · intro earlier between later rest a b t hdeeds hlater
    have hlawful := hin'.books.lawful
    rw [hruns.chronicle hin, hdeeds] at hlawful
    simp only [List.reverse_append, List.reverse_cons, List.append_assoc, List.cons_append,
      List.nil_append] at hlawful
    have hturn := resumed_in_turn hlawful.of_append (by simpa using hlater)
    simpa [or_comm] using hturn
  · refine (Scheduler.advance_ends hin'.books hin'.calm hends).imp fun fuel hended =>
      hended.imp_left ?_
    rintro ⟨q, rt', hadvance⟩
    refine ⟨h'.episode .tick (.ok (.resumed q.1)) ⟨rt', q.2⟩, ⟨rt', q.2⟩, ?_⟩
    have hact : Operation.act fuel h'.scheduler .tick h'.runtime = .ok (.resumed q.1, q.2) rt' := by
      simp only [Operation.act, Act.bind_apply, hadvance]
      rfl
    simp only [perform, hact]

theorem naps_are_punctual : ∃ episodes h', napping.Runs episodes h' ∧
    episodes.map Episode.deeds = [
      [.created 1, .stopped 1 (.deferred (.ticks 1)), .filed 1 1],
      [.ticked 1, .resumed 1, .stopped 1 .returned],
      [.created 2, .stopped 2 (.deferred (.ticks 1)), .filed 2 2]] ∧
    Punctual episodes ∧ h'.scheduler.TurnsEnd h'.runtime ∧
    ∃ fuel, (∃ e h'', h'.perform fuel .tick = some (e, h'')) ∨
      ∃ b rt, h'.scheduler.advance fuel h'.runtime = .breach b rt ∧
        h'.scheduler.Stalls h'.runtime b rt := by
  let ops : List Operation := [.spawn ⟨1, "nap"⟩ {}, .tick, .spawn ⟨1, "nap"⟩ {}]
  have hperforms : ((napping.performAll 9 ops).map fun q =>
      (q.1.map Episode.deeds, (q.2.perform 9 .tick).isSome)) = some ([
      [.created 1, .stopped 1 (.deferred (.ticks 1)), .filed 1 1],
      [.ticked 1, .resumed 1, .stopped 1 .returned],
      [.created 2, .stopped 2 (.deferred (.ticks 1)), .filed 2 2]], true) := by decide +kernel
  obtain ⟨⟨episodes, h'⟩, hperform, heq⟩ := Option.map_eq_some_iff.mp hperforms
  obtain ⟨hdeeds, htick⟩ := Prod.mk.inj heq
  obtain ⟨⟨e, h''⟩, htick⟩ := Option.isSome_iff_exists.mp htick
  have hfresh : napping.IsFresh := ⟨rfl, rfl, rfl⟩
  have hruns := runs_of_performAll hperform
  have hends : h'.scheduler.TurnsEnd h'.runtime :=
    turnsEnd_of_perform (hruns.inOrder hfresh.inOrder) htick
  exact ⟨episodes, h', hruns, hdeeds, (Runs.punctual hfresh hruns).1, hends,
    (Runs.punctual hfresh hruns).2 hends⟩

/-- As many ticks as can be asked for. -/
def longest : UInt64 := 18446744073709551615

/-- A host with a proc that goes to sleep for as long as can be said. -/
def drowsy : Host where
  runtime := {
    procs := #[{
      signature := { name := "doze" }
      body := .routine false fun _ _ => .ask (.sleep longest) fun _ => .done .null }] }

/-- A context that went to sleep under a call breaks off the tick that should adopt it. Nobody has
got a turn in it. -/
theorem tick_is_broken_off : drowsy.IsFresh ∧ ∃ episodes h', drowsy.Runs episodes h' ∧
    episodes.map Episode.deeds =
      [[.ticked 1], [.created 1, .stopped 1 (.deferred (.ticks longest))]] ∧
    h'.scheduler.TurnsEnd h'.runtime ∧ ∀ fuel, h'.perform fuel .tick = none := by
  have hperforms : ((drowsy.performAll 9 [.tick, .run ⟨1, "doze"⟩ {}]).map fun q =>
      (q.1.map Episode.deeds, q.2.scheduler.tick, q.2.runtime.detached.toList.map Context.state)) =
        some ([[.ticked 1], [.created 1, .stopped 1 (.deferred (.ticks longest))]], 1,
          [.deferred (.ticks longest)]) := by decide +kernel
  obtain ⟨⟨episodes, h'⟩, hperform, heq⟩ := Option.map_eq_some_iff.mp hperforms
  obtain ⟨hdeeds, heq⟩ := Prod.mk.inj heq
  obtain ⟨htick, hadrift⟩ := Prod.mk.inj heq
  obtain ⟨c, _, hdetached, hstate, _⟩ := List.map_eq_cons_iff.mp hadrift
  have hc : c ∈ h'.runtime.detached := Array.mem_toList_iff.mp (hdetached ▸ List.mem_cons_self)
  have hlate : h'.scheduler.Oversleeps c := by
    have htick : h'.scheduler.tick = 1 := htick
    refine ⟨longest, hstate, ?_⟩
    rw [Scheduler.due, htick]
    decide
  refine ⟨⟨rfl, rfl, rfl⟩, episodes, h', runs_of_performAll hperform, hdeeds,
    fun fuel s rt hopening => ?_, fun fuel => ?_⟩
  · obtain ⟨rt', hbreach⟩ := (hlate.opening_eq hc fuel).1
    cases hbreach.symm.trans hopening
  · obtain ⟨rt', hbreach⟩ := (hlate.opening_eq hc fuel).2
    simp only [perform, Operation.act, Act.bind_apply, hbreach]

end Host

end ProcEngine
