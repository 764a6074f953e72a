import ProcEngine.Proofs.Fuel
import ProcEngine.Proofs.Scheduler.Turns
/-!
# Ticks come to an end

Turns are given as long as somebody is due, and may send others to sleep. Still they come to an end
if every one of them does: whoever goes to sleep meanwhile is due on a later tick, so each turn
leaves fewer who are due. Who sleeps past the last tick that can be counted is never filed. That
breaks off the turn, and the tick with it.
-/

namespace ProcEngine

open Chronicle

namespace Scheduler

/-- The first of the queue is due, and this is what comes of its turn. -/
inductive Turn (s : Scheduler) (rt : Runtime) (x : Outcome Runtime Scheduler) : Prop
  | intro {fuel : Nat} {first : Sleeper} {rest : List Sleeper} {p : Parked} :
    s.sleepers = first :: rest → first.wakeAt ≤ s.tick → s.parked[first.context]? = some p →
    ({ s with sleepers := rest }).rouse fuel p rt = x → Turn s rt x

inductive Reaches : Scheduler → Runtime → Scheduler → Runtime → Prop
  | refl (s : Scheduler) (rt : Runtime) : Reaches s rt s rt
  | turn {s s' s'' : Scheduler} {rt rt' rt'' : Runtime} :
    Turn s rt (.ok s' rt') → Reaches s' rt' s'' rt'' → Reaches s rt s'' rt''

/-- Every turn comes to an end. -/
def HandsBack (s : Scheduler) (rt : Runtime) : Prop :=
  ∀ s' rt', Reaches s rt s' rt' → ∀ first rest p, s'.sleepers = first :: rest →
    first.wakeAt ≤ s'.tick →
    s'.parked[first.context]? = some p → ∃ fuel, ({ s' with sleepers := rest }).rouse fuel p rt' ≠
      .exhausted

/-- One of the turns is broken off. -/
def BreaksOff (s : Scheduler) (rt : Runtime) (b : Breach) (rt' : Runtime) : Prop :=
  ∃ s₁ rt₁, Reaches s rt s₁ rt₁ ∧ Turn s₁ rt₁ (.breach b rt')

def dues (s : Scheduler) : List Sleeper := s.sleepers.filter (·.wakeAt ≤ s.tick)

variable {s s' : Scheduler} {rt rt' : Runtime}

theorem HandsBack.turn (h : HandsBack s rt) (hturn : Turn s rt (.ok s' rt')) : HandsBack s' rt' :=
  fun _ _ hreaches => h _ _ (.turn hturn hreaches)

theorem BreaksOff.turn {b : Breach} {rt'' : Runtime} (hturn : Turn s rt (.ok s' rt'))
    (h : BreaksOff s' rt' b rt'') : BreaksOff s rt b rt'' := by
  obtain ⟨s₁, rt₁, hreaches, hbreaks⟩ := h
  exact ⟨s₁, rt₁, .turn hturn hreaches, hbreaks⟩

theorem sleepers_nodup (h : Books [] s rt) : s.sleepers.Nodup := by
  refine h.sorted.imp fun {a b} hbefore heq => ?_
  subst heq
  exact Sleeper.not_before_self a hbefore

theorem Turn.spec (h : Books [] s rt) (hturn : Turn s rt (.ok s' rt')) :
    ∃ first rest log, s.sleepers = first :: rest ∧ first.wakeAt ≤ s.tick ∧
      rt'.chronicle = log ++ .resumed first.context :: rt.chronicle ∧ Still log ∧
      Books [] s' rt' ∧ rt'.detached = #[] ∧ s'.tick = s.tick := by
  obtain @⟨fuel, first, rest, p, hs, hdue, hp, hrouse⟩ := hturn
  obtain ⟨p', hp', _, hbooks⟩ := Ledger.first h hs hdue
  obtain rfl : p = p' := Option.some.inj (hp.symm.trans hp')
  have hid := (h.parked first.context p hp).1
  rw [← hid] at hbooks
  have hsettles := (rouse_gives fuel hbooks).of_ok hrouse
  obtain ⟨log, hlog, hquiet⟩ := hsettles.quiet.adds
  rw [hid] at hlog
  exact ⟨first, rest, log, hs, hdue, hlog, Still.of_quiet hquiet,
    hsettles.books, hsettles.settled, hsettles.quiet.tick⟩

/-- After a turn, nobody is due who was not due before, and one less is. -/
theorem dues_lt_of_turn (h : Books [] s rt) (hsettled : rt.detached = #[])
    (hturn : Turn s rt (.ok s' rt')) :
    s'.dues.length < s.dues.length := by
  obtain ⟨first, rest, log, hs, hdue, hlog, hstill, hbooks, _, htick⟩ := hturn.spec h
  have hlog' : rt'.chronicle = (log ++ [.resumed first.context]) ++ rt.chronicle := by
    rw [hlog]
    simp
  have hleft : s'.dues ⊆ rest.filter (·.wakeAt ≤ s.tick) := by
    intro e he
    obtain ⟨he, hdue'⟩ := List.mem_filter.mp he
    rw [htick] at hdue'
    have hpending := hbooks.queue.mem_iff.mp he
    have hw := wakes_of_pending hbooks.lawful hpending
    rw [hlog] at hw
    -- Who is due now has been asleep since before the turn: who went to sleep in it is due on a
    -- later tick.
    obtain ⟨hw, hno⟩ | ⟨n, _, hlater⟩ := wakes_append hstill hw
    · have hcontext : first.context ≠ e.context := fun heq => by simp [wakes, heq] at hw
      simp only [wakes, hcontext, if_false] at hw
      rw [Books, hsettled] at h
      obtain ⟨e', he', hsame⟩ := h.pending_of_wakes hw
      have hkept : e' ∈ Chronicle.pending rt'.chronicle := by
        rw [hlog']
        refine pending_of_not_resumed he' ?_
        simp [hsame, hno, Ne.symm hcontext]
      obtain rfl := pending_unique hbooks.lawful hpending hkept hsame.symm
      have hmem : e ∈ first :: rest := hs ▸ h.queue.mem_iff.mpr he'
      obtain rfl | hmem := List.mem_cons.mp hmem
      · exact absurd rfl hcontext
      · exact List.mem_filter.mpr ⟨hmem, hdue'⟩
    · have hcounter : counter (.resumed first.context :: rt.chronicle) = s.tick := h.tick.symm
      have hdue' : e.wakeAt ≤ s.tick := of_decide_eq_true hdue'
      rw [hcounter] at hlater
      rw [UInt64.le_iff_toNat_le, hlater] at hdue'
      omega
  have hle := List.Nodup.length_le_of_subset ((sleepers_nodup hbooks).filter _) hleft
  have hcons : s.dues = first :: rest.filter (·.wakeAt ≤ s.tick) := by
    rw [dues, hs]
    exact List.filter_cons_of_pos (decide_eq_true hdue)
  rw [hcons, List.length_cons]
  exact Nat.lt_succ_of_le hle

theorem resumeDue_ends (resumed : Nat) (h : Books [] s rt) (hsettled : rt.detached = #[])
    (hback : HandsBack s rt) :
    ∃ fuel, (∃ q rt', resumeDue fuel s resumed rt = .ok q rt') ∨
      ∃ b rt', resumeDue fuel s resumed rt = .breach b rt' ∧ BreaksOff s rt b rt' := by
  induction hlength : s.dues.length using Nat.strongRecOn generalizing s rt resumed with
  | ind length ih =>
    cases hs : s.sleepers with
    | nil => exact ⟨1, Or.inl ⟨(resumed, s), rt, by simp only [resumeDue, hs]; rfl⟩⟩
    | cons first rest =>
      by_cases hdue : s.tick < first.wakeAt
      · exact ⟨1, Or.inl ⟨(resumed, s), rt, by simp only [resumeDue, hs, hdue, if_true]; rfl⟩⟩
      · have hdue' : first.wakeAt ≤ s.tick := UInt64.not_lt.mp hdue
        obtain ⟨p, hp, _⟩ := Ledger.first h hs hdue'
        obtain ⟨m, hended⟩ := hback s rt (.refl s rt) first rest p hs hdue' hp
        have hgives := turn_gives m h hs hdue' hp
        cases hrouse : ({ s with sleepers := rest }).rouse m p rt with
        | ok s₁ rt₁ =>
          have hturn : Turn s rt (.ok s₁ rt₁) := .intro hs hdue' hp hrouse
          have hdrains := hgives.of_ok hrouse
          have hlt := dues_lt_of_turn h hsettled hturn
          obtain ⟨n, hrest⟩ :=
            ih _ (hlength ▸ hlt) (resumed + 1) hdrains.books hdrains.settled (hback.turn hturn) rfl
          -- Fuel enough for this turn and for all the others is enough for both.
          have hmore : resumeDue (max m n + 1) s resumed rt = resumeDue n s₁ (resumed + 1) rt₁ := by
            have hrouse' :=
              Outcome.eq_of_le (rouse_mono (Nat.le_max_left m n) { s with sleepers := rest } p rt)
                hended
            have hrest' : resumeDue n s₁ (resumed + 1) rt₁ ≠ .exhausted := by
              obtain ⟨q, rt', hok⟩ | ⟨b, rt', hbreach, _⟩ := hrest <;> simp [*]
            simp only [resumeDue, hs, hdue, if_false, hp, Act.bind_apply, hrouse', hrouse]
            exact Outcome.eq_of_le (resumeDue_mono (Nat.le_max_right m n) s₁ (resumed + 1) rt₁)
              hrest'
          refine ⟨max m n + 1, ?_⟩
          rw [hmore]
          refine hrest.imp_right ?_
          rintro ⟨b, rt', hbreach, hbreaks⟩
          exact ⟨b, rt', hbreach, hbreaks.turn hturn⟩
        | fault e rt₁ =>
          rw [hrouse] at hgives
          exact hgives.elim
        | breach b rt₁ =>
          refine ⟨m + 1, Or.inr ⟨b, rt₁, ?_, s, rt, .refl s rt, .intro hs hdue' hp hrouse⟩⟩
          simp only [resumeDue, hs, hdue, if_false, hp, Act.bind_apply, hrouse]
        | exhausted => exact absurd hrouse hended

/-- What a tick does before anybody gets a turn. -/
def opening (fuel : Nat) (s : Scheduler) : Act Runtime Scheduler := do
  let s ← s.adopt fuel
  Runtime.recording (.ticked (s.tick + 1))
  return { s with tick := s.tick + 1 }

/-- Whoever gets a turn in the tick to come hands it back. -/
def TurnsEnd (s : Scheduler) (rt : Runtime) : Prop :=
  ∀ fuel s' rt', s.opening fuel rt = .ok s' rt' → HandsBack s' rt'

/-- The tick to come is broken off: somebody who is adrift oversleeps, or one of the turns is broken
off. -/
inductive Stalls (s : Scheduler) (rt : Runtime) : Breach → Runtime → Prop
  | adopting {c : Context} {rt' : Runtime} : c ∈ rt.detached → s.Oversleeps c →
    Stalls s rt .addOverflow rt'
  | turning {fuel : Nat} {s₁ : Scheduler} {b : Breach} {rt₁ rt' : Runtime} :
    s.opening fuel rt = .ok s₁ rt₁ →
    BreaksOff s₁ rt₁ b rt' → Stalls s rt b rt'

theorem opening_of_adopt {fuel : Nat} (hadopt : s.adopt fuel rt = .ok s' rt') :
    s.opening fuel rt = .ok { s' with tick := s'.tick + 1 }
      (rt'.record (.ticked (s'.tick + 1))) := by
  simp only [opening, Act.bind_apply, hadopt]
  rfl

/-- A tick comes to an end if every turn does. -/
theorem advance_ends (h : Books [] s rt) (hcalm : Calm rt.chronicle) (hends : TurnsEnd s rt) :
    ∃ fuel, (∃ q rt', s.advance fuel rt = .ok q rt') ∨
      ∃ b rt', s.advance fuel rt = .breach b rt' ∧ s.Stalls rt b rt' := by
  obtain ⟨_, s₁, rt₁, hadopt, _⟩ | ⟨⟨c, hc, hlate⟩, rt', hadopt, _⟩ := adopt_untold 0 s rt
  · have hopens := (opens 0 h hcalm).of_ok hadopt
    have hopening := opening_of_adopt hadopt
    obtain ⟨fuel, hrest⟩ := resumeDue_ends 0 hopens.books hopens.settled (hends 0 _ _ hopening)
    have hadopt' := Outcome.eq_of_le (adopt_mono (Nat.zero_le fuel) s rt) (by rw [hadopt]; simp)
    have hadvance : s.advance fuel rt = resumeDue fuel { s₁ with tick := s₁.tick + 1 } 0
        (rt₁.record (.ticked (s₁.tick + 1))) := by
      simp only [advance, Act.bind_apply, hadopt', hadopt]
      rfl
    refine ⟨fuel, ?_⟩
    rw [hadvance]
    refine hrest.imp_right ?_
    rintro ⟨b, rt', hbreach, hbreaks⟩
    exact ⟨b, rt', hbreach, .turning hopening hbreaks⟩
  · refine ⟨0, Or.inr ⟨.addOverflow, rt', ?_, .adopting hc hlate⟩⟩
    simp only [advance, Act.bind_apply, hadopt]

/-- Whoever oversleeps breaks off every tick while it is adrift, before anybody gets a turn. -/
theorem Oversleeps.opening_eq {c : Context} (h : s.Oversleeps c) (hc : c ∈ rt.detached)
    (fuel : Nat) :
    (∃ rt', s.opening fuel rt = .breach .addOverflow rt') ∧ ∃ rt', s.advance fuel rt =
      .breach .addOverflow rt' := by
  obtain ⟨rt', hadopt⟩ := h.adopt_eq hc fuel
  simp only [opening, advance, Act.bind_apply, hadopt]
  exact ⟨⟨rt', rfl⟩, rt', rfl⟩

/-! ### Ticks that have come to an end -/

section Ended

variable {fuel resumed : Nat} {q : Nat × Scheduler} {rt₀ : Runtime}

theorem rouse_of_resumeDue (hrun : resumeDue fuel s resumed rt = .ok q rt₀) {first : Sleeper}
    {rest : List Sleeper}
    {p : Parked} (hs : s.sleepers = first :: rest) (hdue : first.wakeAt ≤ s.tick)
    (hp : s.parked[first.context]? = some p) :
    ∃ fuel' s' rt', ({ s with sleepers := rest }).rouse fuel' p rt = .ok s' rt' ∧
      resumeDue fuel' s' (resumed + 1) rt' = .ok q rt₀ := by
  cases fuel with
  | zero => cases hrun
  | succ fuel =>
    simp only [resumeDue, hs, UInt64.not_lt.mpr hdue, if_false, hp, Act.bind_apply] at hrun
    cases hrouse : ({ s with sleepers := rest }).rouse fuel p rt with
    | ok s' rt' =>
      rw [hrouse] at hrun
      exact ⟨fuel, s', rt', hrouse, hrun⟩
    | fault e rt' =>
      rw [hrouse] at hrun
      cases hrun
    | breach b rt' =>
      rw [hrouse] at hrun
      cases hrun
    | exhausted =>
      rw [hrouse] at hrun
      cases hrun

theorem resumeDue_of_turn (hturn : Turn s rt (.ok s' rt'))
    (hrun : resumeDue fuel s resumed rt = .ok q rt₀) :
    ∃ fuel' resumed', resumeDue fuel' s' resumed' rt' = .ok q rt₀ := by
  obtain @⟨m, first, rest, p, hs, hdue, hp, hrouse⟩ := hturn
  obtain ⟨n, s₁, rt₁, hrouse', hrest⟩ := rouse_of_resumeDue hrun hs hdue hp
  have hm := Outcome.eq_of_le (rouse_mono (Nat.le_max_left m n) { s with sleepers := rest } p rt)
    (by rw [hrouse]; simp)
  have hn := Outcome.eq_of_le (rouse_mono (Nat.le_max_right m n) { s with sleepers := rest } p rt)
    (by rw [hrouse']; simp)
  rw [hm, hrouse, hrouse'] at hn
  cases hn
  exact ⟨n, resumed + 1, hrest⟩

theorem resumeDue_of_reaches (hreaches : Reaches s rt s' rt')
    (hrun : resumeDue fuel s resumed rt = .ok q rt₀) :
    ∃ fuel' resumed', resumeDue fuel' s' resumed' rt' = .ok q rt₀ := by
  induction hreaches generalizing fuel resumed with
  | refl s rt => exact ⟨fuel, resumed, hrun⟩
  | turn hturn _ ih =>
    obtain ⟨fuel', resumed', hrest⟩ := resumeDue_of_turn hturn hrun
    exact ih hrest

/-- If a tick has come to an end, every turn in it has. -/
theorem handsBack_of_resumeDue (hrun : resumeDue fuel s resumed rt = .ok q rt₀) :
    HandsBack s rt := by
  intro s' rt' hreaches first rest p hs hdue hp
  obtain ⟨fuel', resumed', hrest⟩ := resumeDue_of_reaches hreaches hrun
  obtain ⟨n, s'', rt'', hrouse, _⟩ := rouse_of_resumeDue hrest hs hdue hp
  exact ⟨n, by rw [hrouse]; simp⟩

theorem turnsEnd_of_advance (hrun : s.advance fuel rt = .ok q rt₀) : TurnsEnd s rt := by
  intro fuel' s' rt' hopening
  obtain ⟨s₁, rt₁, hadopt, hrun⟩ := Act.of_bind_eq_ok hrun
  obtain ⟨s₂, rt₂, hadopt', hopening⟩ := Act.of_bind_eq_ok hopening
  have hless :=
    Outcome.eq_of_le (adopt_mono (Nat.le_max_left fuel fuel') s rt) (by rw [hadopt]; simp)
  have hmore :=
    Outcome.eq_of_le (adopt_mono (Nat.le_max_right fuel fuel') s rt) (by rw [hadopt']; simp)
  rw [hless, hadopt, hadopt'] at hmore
  cases hmore
  cases hopening
  exact handsBack_of_resumeDue hrun

end Ended

end Scheduler

end ProcEngine
