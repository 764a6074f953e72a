import Mathlib.Algebra.Group.Nat.Defs
import ProcEngine.Proofs.Scheduler.Order
import ProcEngine.Proofs.Scheduler.Punctuality
/-!
# How long a sleep lasts

A sleep is for one tick at least, and a sleep for `n` ticks that begins at tick `t` is over at
`t + max n 1`. Nobody is resumed until that many ticks have gone by, and nobody twice by one tick.
The scheduler reckons in 64 bits. A sleep whose end is out of their range is not filed at all: the
operation that should file it breaks off, which is the one in which the context goes to sleep, or
the one that should adopt it. A script never asks for as much as half of the range; a routine may
ask for all of it.
-/

namespace ProcEngine

open Chronicle

/-- The tick at which a sleep for `n` ticks is over that begins in the episode, as a number without
bound. -/
def Episode.sleepEnd (e : Episode) (n : UInt64) : Nat := e.tick.toNat + max n.toNat 1

/-- In the episode `e` a context goes to sleep for `n` ticks, upon which follow the deeds `post` of
this episode and the episodes `after` it. -/
structure FallsAsleep (episodes : List Episode) (id : ContextId) (n : UInt64) (e : Episode)
    (post : List Milestone) (after : List Episode) : Prop where
  episode : ∃ before, episodes = before ++ e :: after
  deed : ∃ pre, e.deeds = pre ++ .stopped id (.deferred (.ticks n)) :: post

/-- Each sleep lasts as long as it is for. -/
structure SleepsOut (episodes : List Episode) : Prop where
  /-- With nobody left adrift, every sleep is one whose end can be counted to. -/
  inRange : ∀ id n e post after, FallsAsleep episodes id n e post after →
    ∀ e' ∈ e :: after, e'.settles → e.sleepEnd n < UInt64.size
  /-- Who sleeps is filed for the tick at which the sleep is over. -/
  filedFor : ∀ id n e post after, FallsAsleep episodes id n e post after →
    ∀ between t rest, post ++ after.flatMap Episode.deeds = between ++ .filed id t :: rest →
      .resumed id ∉ between → t.toNat = e.sleepEnd n
  /-- It is next resumed by the tick with which as many have gone by. -/
  lasts : ∀ id n e post after, FallsAsleep episodes id n e post after → .resumed id ∉ post ∧
    ∀ between e' rest, after = between ++ e' :: rest → .resumed id ∉ between.flatMap Episode.deeds →
      (.resumed id ∈ e'.deeds ↔
        e'.operation.isTick ∧ (between ++ [e']).countP (·.operation.isTick) = max n.toNat 1)
  /-- A tick resumes nobody twice. -/
  once : ∀ e ∈ episodes, e.operation.isTick → ∀ id, e.deeds.count (.resumed id) ≤ 1

/-! ### What scripts ask for -/

theorem ScriptFrame.toNat_ticksOf_lt (i : Int64) : (ticksOf i).toNat < 2 ^ 63 := by
  have hi := i.toInt_lt
  rw [ticksOf, UInt64.toNat_ofNat']
  omega

theorem ScriptFrame.lt_of_exec {f f' : ScriptFrame} {src usr : Option ObjectRef}
    {i : Instr} {n : UInt64} (h : f.exec src usr i = .ok (.sleep n, f')) : n.toNat < 2 ^ 63 := by
  cases i with
  | sleep =>
    obtain ⟨⟨v, g⟩, _, h⟩ := Except.of_bind_eq_ok h
    obtain ⟨k, _, h⟩ := Except.of_bind_eq_ok h
    cases h
    exact toNat_ticksOf_lt k
  | _ =>
    simp only [exec, binary, bind, Except.bind, pure, Except.pure] at h
    (repeat' split at h) <;> cases h

namespace Activation

variable {a b : Activation} {fuel : Nat} {rt rt' : Runtime} {n : UInt64}

theorem eq_sleep_of_meet {d : Demand} (h : a.meet fuel d rt = .ok (b, .deferred (.ticks n)) rt') :
    d = .sleep n := by
  cases d with
  | sleep ticks =>
    cases h
    rfl
  | proceed | result v | finish v => cases h
  | read o name | write o name v | delete o =>
    obtain ⟨_, _, _, h⟩ := Act.of_bind_eq_ok h
    cases h
  | call name args | callMethod o name args | construct path args =>
    obtain ⟨_, _, _, h⟩ := Act.of_bind_eq_ok h
    cases h
  | callSuper args =>
    simp only [meet, Act.bind_apply, Act.get_apply] at h
    cases hover : (rt.proc a.proc).overridden <;> rw [hover] at h <;> cases h

/-- A script does not sleep for half of the range. -/
theorem ticks_lt_of_step {f : ScriptFrame} {drive : Drive} {instr : Option Instr}
    (hframe : a.frame = .script f)
    (h : a.step fuel drive instr rt = .ok (b, .deferred (.ticks n)) rt') : n.toNat < 2 ^ 63 := by
  simp only [step, hframe, stepScript] at h
  cases hlocals : f.locals with
  | none =>
    rw [hlocals] at h
    obtain ⟨_, _, _, h⟩ := Act.of_bind_eq_ok h
    obtain ⟨_, h⟩ := Act.of_need h
    cases h
  | some slots =>
    rw [hlocals] at h
    cases instr with
    | none => cases h
    | some i =>
      obtain ⟨⟨d, f'⟩, rt₁, hexec, hmeet⟩ := Act.of_bind_eq_ok h
      obtain rfl := eq_sleep_of_meet hmeet
      cases hrun : f.exec a.src a.usr i with
      | error why =>
        rw [hrun] at hexec
        cases hexec
      | ok q =>
        rw [hrun] at hexec
        cases hexec
        exact ScriptFrame.lt_of_exec hrun

end Activation

/-! ### Filing -/

/-- Who goes to sleep is filed for the tick at which the sleep is over, if that is in range, and
breaks off whatever should file it, if not. -/
theorem Scheduler.park_sleeper (s : Scheduler) {p : Parked} {n : UInt64}
    (hstate : p.context.state = .deferred (.ticks n)) (fuel : Nat) (v : Value) (rt : Runtime) :
    (s.due n < UInt64.size → ∃ t s', t.toNat = s.due n ∧
      s.park fuel p v rt = .ok s' (rt.record (.filed p.context.id t)) ∧
      ⟨t, s'.filed, p.context.id⟩ ∈ s'.sleepers) ∧
    (UInt64.size ≤ s.due n → s.park fuel p v rt = .breach .addOverflow rt) := by
  refine ⟨fun hrange => ?_, fun hlate => Oversleeps.park_eq ⟨n, hstate, hlate⟩ fuel v rt⟩
  simp only [park, hstate]
  rw [Act.need_bind, if_pos hrange]
  exact ⟨_, _, UInt64.toNat_ofNat_of_lt' hrange, rfl,
    (enqueue_perm _ _).mem_iff.mpr List.mem_cons_self⟩

namespace Host

variable {h h₁ h₂ h' : Host} {e : Episode} {between episodes after : List Episode}
  {pre post : List Milestone} {id : ContextId} {n : UInt64} {w m : Nat}

/-! ### Sleep through a run -/

namespace Runs

theorem asleep (hin : h.InOrder) (hruns : Runs h episodes h')
    (hw : Chronicle.wakes id h.runtime.chronicle = some w)
    (hno : .resumed id ∉ episodes.flatMap Episode.deeds) :
    Chronicle.wakes id h'.runtime.chronicle = some w := by
  have hlawful := (hruns.inOrder hin).books.lawful
  rw [hruns.chronicle hin] at hlawful ⊢
  exact wakes_of_not_resumed hlawful (by simpa using hno) hw

theorem toNat_tick (hin : h.InOrder) (hruns : Runs h episodes h') :
    h'.scheduler.tick.toNat = (h.scheduler.tick.toNat + episodes.countP (·.operation.isTick)) %
      UInt64.size := by
  rw [hruns.tick_eq hin, UInt64.toNat_add, UInt64.toNat_ofNat', Nat.add_mod_mod]

theorem last (hin : h.InOrder) (hruns : Runs h (between ++ [e]) h') :
    ∃ h₁, Runs h between h₁ ∧ h₁.InOrder ∧ h₁.Passes e h' := by
  obtain ⟨h₁, hbetween, hlast⟩ := hruns.split
  have hin₁ := hbetween.inOrder hin
  obtain ⟨h₂, hpasses, hnil⟩ := hlast.passes hin₁
  cases hnil
  exact ⟨h₁, hbetween, hin₁, hpasses⟩

/-- The next that resumes a sleeper is the tick that brings the counter to the end of the sleep. -/
theorem resumed_iff_raisesTo (hin : h.InOrder) (hruns : Runs h (between ++ [e]) h')
    (hw : Chronicle.wakes id h.runtime.chronicle = some w)
    (hno : .resumed id ∉ between.flatMap Episode.deeds) :
    .resumed id ∈ e.deeds ↔ e.RaisesTo w := by
  obtain ⟨h₁, hbetween, hin₁, hpasses⟩ := hruns.last hin
  exact (hpasses.resumed_iff hin₁ (hbetween.asleep hin hw hno)).1

end Runs

theorem exists_tick_of_le_countP (hm : 0 < m) (hle : m ≤ episodes.countP (·.operation.isTick)) :
    ∃ earlier e later, episodes = earlier ++ e :: later ∧ e.operation.isTick ∧
      (earlier ++ [e]).countP (·.operation.isTick) = m := by
  induction episodes generalizing m with
  | nil => simp at hle; omega
  | cons d episodes ih =>
    rw [List.countP_cons] at hle
    by_cases hlast : d.operation.isTick ∧ m = 1
    · exact ⟨[], d, episodes, rfl, hlast.1, by simp [hlast]⟩
    · obtain ⟨earlier, e, later, rfl, htick, hcount⟩ :=
        ih (m := if d.operation.isTick then m - 1 else m) (by split <;> simp_all; omega)
          (by split <;> simp_all)
      refine ⟨d :: earlier, e, later, rfl, htick, ?_⟩
      rw [List.cons_append, List.countP_cons, hcount]
      split <;> omega

theorem Passes.lt_of_wakes (hpasses : h₁.Passes e h₂) (hsettles : e.settles)
    (hw : Chronicle.wakes id h₂.runtime.chronicle = some w) : w < UInt64.size := by
  have hbooks := hpasses.inOrder.books
  rw [Books, hpasses.settled hsettles] at hbooks
  obtain ⟨s, hs, rfl⟩ := hbooks.pending_of_wakes hw
  obtain rfl := Option.some.inj ((wakes_of_pending hbooks.lawful hs).symm.trans hw)
  exact s.wakeAt.toNat_lt

/-- Once nobody is adrift, nobody has been asleep whose end is out of range. -/
theorem Runs.lt_of_settles (hin : h.InOrder) (hruns : Runs h episodes h')
    (hw : Chronicle.wakes id h.runtime.chronicle = some w) (he : e ∈ episodes)
    (hsettles : e.settles) : w < UInt64.size := by
  induction hruns with
  | nil h => cases he
  | @cons _ _ _ _ _ first _ hperform hrest ih =>
    have hpasses := Host.passes hin hperform
    -- The sleeper is resumed by the tick whose number is `w`, or it sleeps on and is on the queue
    -- under `w` in the end.
    by_cases hresumed : .resumed id ∈ first.deeds
    · exact hpasses.tick_of_resumed hw hresumed ▸ first.tick.toNat_lt
    · have hasleep := hpasses.wakes_of_not_resumed hw hresumed
      obtain rfl | he := List.mem_cons.mp he
      · exact hpasses.lt_of_wakes hsettles hasleep
      · exact ih hpasses.inOrder hasleep he

theorem Episode.settles_of_isTick {e : Episode} (htick : e.operation.isTick) : e.settles := by
  obtain ⟨op, answer, tick, deeds⟩ := e
  cases op <;> first | rfl | cases htick

/-- A sleeper is next resumed by the tick with which the ticks of its sleep have gone by. -/
theorem Runs.resumed_iff_countP (hin : h.InOrder) (hruns : Runs h (between ++ [e]) h') (hm : 0 < m)
    (hw : Chronicle.wakes id h.runtime.chronicle = some (h.scheduler.tick.toNat + m))
    (hno : .resumed id ∉ between.flatMap Episode.deeds) :
    .resumed id ∈ e.deeds ↔ e.operation.isTick ∧ (between ++ [e]).countP (·.operation.isTick) =
      m := by
  have htick {between : List Episode} {e : Episode} {h' : Host}
      (hruns : Runs h (between ++ [e]) h') :
      e.tick.toNat = (h.scheduler.tick.toNat + (between ++ [e]).countP (·.operation.isTick)) %
        UInt64.size := by
    obtain ⟨_, _, _, hpasses⟩ := hruns.last hin
    rw [← hruns.toNat_tick hin, hpasses.tick]
  rw [hruns.resumed_iff_raisesTo hin hw hno]
  refine and_congr_right fun hop => ?_
  have hlt := hruns.lt_of_settles hin hw (by simp) (Episode.settles_of_isTick hop)
  refine ⟨fun hraises => ?_, fun hcount => ?_⟩
  · rw [htick hruns] at hraises
    have hle : m ≤ (between ++ [e]).countP (·.operation.isTick) := by
      have :=
        Nat.mod_le (h.scheduler.tick.toNat + (between ++ [e]).countP (·.operation.isTick))
          UInt64.size
      omega
    refine Nat.le_antisymm (Nat.le_of_not_lt fun hmore => ?_) hle
    -- A tick in between has made up the number, and has resumed the sleeper then.
    have hbetween : m ≤ between.countP (·.operation.isTick) := by
      rw [List.countP_append, List.countP_singleton, if_pos hop] at hmore
      omega
    obtain ⟨earlier, d, later, rfl, hd, hcount⟩ := exists_tick_of_le_countP hm hbetween
    have hsplit : earlier ++ d :: later ++ [e] = (earlier ++ [d]) ++ (later ++ [e]) := by simp
    rw [hsplit] at hruns
    obtain ⟨h₁, hruns', _⟩ := hruns.split
    have hraises' : d.RaisesTo (h.scheduler.tick.toNat + m) :=
      ⟨hd, by rw [htick hruns', hcount, Nat.mod_eq_of_lt hlt]⟩
    have hno' : .resumed id ∉ earlier.flatMap Episode.deeds := fun hmem => hno (by simp [hmem])
    have hresumed := (hruns'.resumed_iff_raisesTo hin hw hno').mpr hraises'
    exact hno (List.mem_flatMap.mpr ⟨d, by simp, hresumed⟩)
  · rw [htick hruns, hcount, Nat.mod_eq_of_lt hlt]

theorem Passes.filed_for_sleepEnd (hpasses : h₁.Passes e h₂)
    (hdeeds : e.deeds = pre ++ .stopped id (.deferred (.ticks n)) :: post)
    (hruns : Runs h₂ after h') {between rest : List Milestone} {t : UInt64}
    (hfiled : post ++ after.flatMap Episode.deeds = between ++ .filed id t :: rest)
    (hno : .resumed id ∉ between) : t.toNat = e.sleepEnd n := by
  have hlawful := (hruns.inOrder hpasses.inOrder).books.lawful
  have hsplit : h'.runtime.chronicle = rest.reverse ++ .filed id t ::
      (between.reverse ++ .stopped id (.deferred (.ticks n)) ::
        (pre.reverse ++ h₁.runtime.chronicle)) := by
    have hreverse := congrArg List.reverse hfiled
    simp only [List.reverse_append, List.reverse_cons, List.append_assoc, List.cons_append,
      List.nil_append] at hreverse
    rw [hruns.chronicle hpasses.inOrder, hpasses.chronicle, hdeeds, List.reverse_append,
      List.reverse_cons]
    simp only [List.append_assoc, List.cons_append, List.nil_append]
    rw [← List.append_assoc, hreverse]
    simp
  rw [hsplit] at hlawful
  exact filed_at_due between.reverse hlawful.of_append (hpasses.wakes_at_stop hdeeds)
    (by simpa using hno)

theorem passes_of_fallsAsleep (hin : h.InOrder) (hruns : Runs h episodes h')
    (hfalls : FallsAsleep episodes id n e post after) :
    ∃ (h₁ h₂ : Host) (pre : List Milestone), h₁.Passes e h₂ ∧
      e.deeds = pre ++ .stopped id (.deferred (.ticks n)) :: post ∧ Runs h₂ after h' := by
  obtain ⟨⟨before, rfl⟩, pre, hdeeds⟩ := hfalls
  obtain ⟨h₁, hbefore, hrest⟩ := hruns.split
  obtain ⟨h₂, hpasses, hafter⟩ := hrest.passes (hbefore.inOrder hin)
  exact ⟨h₁, h₂, pre, hpasses, hdeeds, hafter⟩

/-! ### Runs -/

theorem Runs.sleepsOut (hin : h.InOrder) (hruns : Runs h episodes h') : SleepsOut episodes where
  inRange id n e post after hfalls e' he hsettles := by
    obtain ⟨_, _, _, hpasses, hdeeds, hafter⟩ := passes_of_fallsAsleep hin hruns hfalls
    obtain ⟨_, hasleep⟩ := hpasses.wakes_of_stopped hdeeds
    obtain rfl | he := List.mem_cons.mp he
    · exact hpasses.lt_of_wakes hsettles hasleep
    · exact hafter.lt_of_settles hpasses.inOrder hasleep he hsettles
  filedFor id n e post after hfalls between t rest hfiled hno := by
    obtain ⟨_, _, _, hpasses, hdeeds, hafter⟩ := passes_of_fallsAsleep hin hruns hfalls
    exact hpasses.filed_for_sleepEnd hdeeds hafter hfiled hno
  lasts id n e post after hfalls := by
    obtain ⟨_, h₂, _, hpasses, hdeeds, hafter⟩ := passes_of_fallsAsleep hin hruns hfalls
    obtain ⟨hno, hasleep⟩ := hpasses.wakes_of_stopped hdeeds
    refine ⟨hno, fun between e' rest hsplit hbetween => ?_⟩
    have hsplit : after = (between ++ [e']) ++ rest := by simp [hsplit]
    subst hsplit
    obtain ⟨h₃, hruns', _⟩ := hafter.split
    rw [← hpasses.tick] at hasleep
    exact hruns'.resumed_iff_countP hpasses.inOrder (by omega) hasleep hbetween
  once e he htick id := by
    obtain ⟨_, _, _, hpasses⟩ := hruns.passes_of_mem hin he
    exact hpasses.count_resumed_le htick id

/-- A sleep lasts as long as it is for. One whose end 64 bits cannot count to is not filed: it
breaks off whatever should file it, a tick also if the sleeper is adrift before it. A script asks
for no such sleep before half of the range has gone by. -/
theorem Runs.sleeps_last (hfresh : h.IsFresh) (hruns : Runs h episodes h') :
    SleepsOut episodes ∧
    (∀ (s : Scheduler) (p : Parked) (n : UInt64), p.context.state = .deferred (.ticks n) →
      ∀ (fuel : Nat) (v : Value) (rt : Runtime),
      (s.due n < UInt64.size → ∃ t s', t.toNat = s.due n ∧
        s.park fuel p v rt = .ok s' (rt.record (.filed p.context.id t)) ∧
        ⟨t, s'.filed, p.context.id⟩ ∈ s'.sleepers) ∧
      (UInt64.size ≤ s.due n → s.park fuel p v rt = .breach .addOverflow rt)) ∧
    (∀ c ∈ h'.runtime.detached, h'.scheduler.Oversleeps c →
      ∀ fuel, ∃ rt, h'.scheduler.advance fuel h'.runtime = .breach .addOverflow rt) ∧
    ∀ (a b : Activation) (f : ScriptFrame) (fuel : Nat) (drive : Drive) (instr : Option Instr)
      (rt rt' : Runtime) (n : UInt64), a.frame = .script f → a.step fuel drive instr rt =
        .ok (b, .deferred (.ticks n)) rt' →
      ∀ s : Scheduler, s.tick.toNat ≤ 2 ^ 63 → s.due n < UInt64.size := by
  refine ⟨hruns.sleepsOut hfresh.inOrder, fun s p n hstate => s.park_sleeper hstate,
    fun c hc hlate fuel => (hlate.opening_eq hc fuel).2, ?_⟩
  intro a b f fuel drive instr rt rt' n hframe hstep s htick
  have hn := Activation.ticks_lt_of_step hframe hstep
  simp only [Scheduler.due, UInt64.size]
  omega

theorem naps_last : ∃ episodes h', napping.IsFresh ∧ napping.Runs episodes h' ∧
    episodes.map Episode.deeds = [
      [.created 1, .stopped 1 (.deferred (.ticks 1)), .filed 1 1],
      [.ticked 1, .resumed 1, .stopped 1 .returned]] ∧
    SleepsOut episodes := by
  have hperforms :
      ((napping.performAll 9 [.spawn ⟨1, "nap"⟩ {}, .tick]).map fun q => q.1.map Episode.deeds) =
        some [
      [.created 1, .stopped 1 (.deferred (.ticks 1)), .filed 1 1],
      [.ticked 1, .resumed 1, .stopped 1 .returned]] := by decide +kernel
  obtain ⟨⟨episodes, h'⟩, hperform, hdeeds⟩ := Option.map_eq_some_iff.mp hperforms
  have hruns := runs_of_performAll hperform
  have hfresh : napping.IsFresh := ⟨rfl, rfl, rfl⟩
  exact ⟨episodes, h', hfresh, hruns, hdeeds, (Runs.sleeps_last hfresh hruns).1⟩

/-- After one tick, a proc that goes to sleep for as long as can be said can no longer be
started. -/
theorem doze_breaks_off : drowsy.IsFresh ∧ ∃ episodes h', drowsy.Runs episodes h' ∧
    episodes.map Episode.deeds = [[.ticked 1]] ∧
    ∃ rt, h'.scheduler.spawn 9 ⟨1, "doze"⟩ {} h'.runtime = .breach .addOverflow rt := by
  have hperform : drowsy.performAll 9 [.tick] = some (
      [⟨.tick, .ok (.resumed 0), 1, [.ticked 1]⟩],
        ⟨drowsy.runtime.record (.ticked 1), { tick := 1 }⟩) := rfl
  exact ⟨⟨rfl, rfl, rfl⟩, _, _, runs_of_performAll hperform, rfl, _, rfl⟩

end Host

end ProcEngine
