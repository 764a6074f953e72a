import Mathlib.Algebra.Group.Nat.Defs
import ProcEngine.Scheduler
/-!
# Lawful chronicles

What may become of contexts, said of the chronicle alone. `Fits m log` says when a milestone may
follow a chronicle, and a lawful chronicle is one in which each fits what came before it. That
sleepers are resumed on time and in turn follows from these laws. That every run keeps them is left
to the ledger.

A chronicle has its latest milestone first.
-/

namespace ProcEngine

/-- What a context was last seen doing. -/
inductive Standing
  | running
  | stopped (s : ContextState)
  deriving DecidableEq

/-- How long a context sleeps that stops in a state. -/
def ContextState.sleep? : ContextState → Option Nat
  | .deferred (.ticks n) => some (max n.toNat 1)
  | _ => none

namespace Chronicle

def standing (id : ContextId) : List Milestone → Option Standing
  | [] => none
  | .created c :: log | .resumed c :: log => if c = id then some .running else standing id log
  | .stopped c s :: log => if c = id then some (.stopped s) else standing id log
  | .filed .. :: log | .completed .. :: log | .ticked _ :: log => standing id log

def counter : List Milestone → UInt64
  | [] => 0
  | .ticked t :: _ => t
  | _ :: log => counter log

def filings : List Milestone → Nat
  | [] => 0
  | .filed .. :: log => filings log + 1
  | _ :: log => filings log

/-- The sleepers that have been filed and not been resumed, the latest first. -/
def pending : List Milestone → List Sleeper
  | [] => []
  | .filed c t :: log => ⟨t, filings log + 1, c⟩ :: pending log
  | .resumed c :: log => (pending log).filter (·.context ≠ c)
  | _ :: log => pending log

/-- The tick at which a context that is asleep is to be resumed, as a number without bound. -/
def wakes (id : ContextId) : List Milestone → Option Nat
  | [] => none
  | .stopped c s :: log => if c = id then s.sleep?.map ((counter log).toNat + ·) else wakes id log
  | .created c :: log | .resumed c :: log => if c = id then none else wakes id log
  | .filed .. :: log | .completed .. :: log | .ticked _ :: log => wakes id log

/-- Time stands still. -/
def Still (log : List Milestone) : Prop := ∀ t, .ticked t ∉ log

/-- Whoever is asleep has time left. -/
def Calm (log : List Milestone) : Prop := ∀ id w, wakes id log = some w → (counter log).toNat < w

def Fits : Milestone → List Milestone → Prop
  | .created c, log => standing c log = none
  | .stopped c s, log => standing c log = some .running ∧ s ≠ .ready
  | .filed c t, log => wakes c log = some t.toNat ∧ ∀ e ∈ pending log, e.context ≠ c
  | .completed c _, log =>
    ∃ s, log.head? = some (.stopped c s) ∧ (s = .returned ∨ ∃ why, s = .faulted why)
  | .resumed c, log => standing c log = some (.stopped (.deferred .external)) ∨
      ∃ e ∈ pending log, e.context = c ∧ e.wakeAt ≤ counter log ∧ ∀ e' ∈ pending log, e' = e ∨
        e.before e'
  | .ticked t, log => t = counter log + 1 ∧ Calm log

def Lawful : List Milestone → Prop
  | [] => True
  | m :: log => Lawful log ∧ Fits m log

variable {id : ContextId} {log later : List Milestone} {m : Milestone} {w : Nat}

theorem Lawful.of_append (h : Lawful (later ++ log)) : Lawful log := by
  induction later with
  | nil => exact h
  | cons m later ih => exact ih h.1

/-! ### Standing -/

theorem standing_of_wakes (h : wakes id log = some w) :
    ∃ n, standing id log = some (.stopped (.deferred (.ticks n))) := by
  induction log with
  | nil => simp [wakes] at h
  | cons m log ih =>
    cases m with
    | created c | resumed c =>
      simp only [wakes, standing] at h ⊢
      split at h
      · cases h
      · rename_i hc
        simpa only [hc, if_false] using ih h
    | stopped c s =>
      simp only [wakes, standing] at h ⊢
      split at h <;> rename_i hc
      · cases s with
        | deferred v =>
          cases v with
          | ticks n => exact ⟨n, by simp only [hc, if_true]⟩
          | external => simp [ContextState.sleep?] at h
        | _ => simp [ContextState.sleep?] at h
      · simpa only [hc, if_false] using ih h
    | filed c t => exact ih h
    | completed c v => exact ih h
    | ticked t => exact ih h

theorem mem_of_standing {s : ContextState} (h : standing id log = some (.stopped s)) :
    .stopped id s ∈ log := by
  induction log with
  | nil => cases h
  | cons m log ih =>
    rw [List.mem_cons]
    cases m with
    | filed c t => exact Or.inr (ih h)
    | completed c v => exact Or.inr (ih h)
    | ticked t => exact Or.inr (ih h)
    | created c | resumed c =>
      rw [standing] at h
      split at h
      · cases h
      · exact Or.inr (ih h)
    | stopped c s' =>
      rw [standing] at h
      split at h <;> rename_i hc
      · cases h
        exact Or.inl (hc ▸ rfl)
      · exact Or.inr (ih h)

theorem ne_ready_of_stopped {s : ContextState} (h : Lawful log) (hm : .stopped id s ∈ log) :
    s ≠ .ready := by
  induction log with
  | nil => cases hm
  | cons m log ih =>
    obtain rfl | hm := List.mem_cons.mp hm
    · exact h.2.2
    · exact ih h.1 hm

/-! ### Sleep -/

/-- Sleep goes on until the sleeper is resumed. -/
theorem wakes_of_not_resumed (h : Lawful (later ++ log)) (hno : .resumed id ∉ later)
    (hw : wakes id log = some w) :
    wakes id (later ++ log) = some w := by
  induction later with
  | nil => exact hw
  | cons m later ih =>
    rw [List.mem_cons, not_or] at hno
    have hbefore := ih h.1 hno.2
    obtain ⟨n, hstanding⟩ := standing_of_wakes hbefore
    have hfits := h.2
    cases m with
    | filed c t => exact hbefore
    | completed c v => exact hbefore
    | ticked t => exact hbefore
    | created c =>
      have hc : c ≠ id := fun heq => by
        subst heq
        exact absurd (hstanding.symm.trans hfits) (by simp)
      simpa only [List.cons_append, wakes, hc, if_false] using hbefore
    | resumed c =>
      have hc : c ≠ id := fun heq => hno.1 (heq ▸ rfl)
      simpa only [List.cons_append, wakes, hc, if_false] using hbefore
    | stopped c s =>
      have hc : c ≠ id := fun heq => by
        subst heq
        exact absurd (hstanding.symm.trans hfits.1) (by simp)
      simpa only [List.cons_append, wakes, hc, if_false] using hbefore

theorem wakes_of_pending (h : Lawful log) {e : Sleeper} (he : e ∈ pending log) :
    wakes e.context log = some e.wakeAt.toNat := by
  induction log with
  | nil => cases he
  | cons m log ih =>
    have hfits := h.2
    cases m with
    | ticked t => exact ih h.1 he
    | completed c v => exact ih h.1 he
    | filed c t =>
      obtain rfl | he := List.mem_cons.mp he
      · exact hfits.1
      · exact ih h.1 he
    | resumed c =>
      rw [pending, List.mem_filter] at he
      have hw := ih h.1 he.1
      have hc : c ≠ e.context := fun heq => by simp [heq] at he
      simpa only [wakes, hc, if_false] using hw
    | created c =>
      have hw := ih h.1 he
      obtain ⟨n, hstanding⟩ := standing_of_wakes hw
      have hc : c ≠ e.context := fun heq => by
        subst heq
        exact absurd (hstanding.symm.trans hfits) (by simp)
      simpa only [wakes, hc, if_false] using hw
    | stopped c s =>
      have hw := ih h.1 he
      obtain ⟨n, hstanding⟩ := standing_of_wakes hw
      have hc : c ≠ e.context := fun heq => by
        subst heq
        exact absurd (hstanding.symm.trans hfits.1) (by simp)
      simpa only [wakes, hc, if_false] using hw

theorem standing_of_pending (h : Lawful log) {e : Sleeper} (he : e ∈ pending log) :
    ∃ n, standing e.context log = some (.stopped (.deferred (.ticks n))) :=
  standing_of_wakes (wakes_of_pending h he)

theorem standing_isSome_iff (h : Lawful log) : (standing id log).isSome ↔ .created id ∈ log := by
  induction log with
  | nil => simp [standing]
  | cons m log ih =>
    have hbefore := ih h.1
    have hfits := h.2
    cases m with
    | filed c t => simpa [standing] using hbefore
    | completed c v => simpa [standing] using hbefore
    | ticked t => simpa [standing] using hbefore
    | created c =>
      by_cases hc : c = id
      · simp [standing, hc]
      · simpa [standing, hc, Ne.symm hc] using hbefore
    | stopped c s =>
      by_cases hc : c = id
      · subst hc
        have hcreated := hbefore.mp (by rw [hfits.1]; rfl)
        simp [standing, hcreated]
      · simpa [standing, hc] using hbefore
    | resumed c =>
      by_cases hc : c = id
      · subst hc
        have hcreated : .created c ∈ log := hbefore.mp <| by
          obtain hexternal | ⟨e, he, rfl, _⟩ := hfits
          · rw [hexternal]
            rfl
          · obtain ⟨n, hasleep⟩ := standing_of_pending h.1 he
            rw [hasleep]
            rfl
        simp [standing, hcreated]
      · simpa [standing, hc] using hbefore

/-- Once finished, a context stays as it is. -/
theorem standing_of_finished {s : ContextState} (hs : s = .returned ∨ ∃ e, s = .faulted e)
    (h : Lawful log) (hm : .stopped id s ∈ log) : standing id log = some (.stopped s) := by
  induction log with
  | nil => cases hm
  | cons m log ih =>
    obtain rfl | hm := List.mem_cons.mp hm
    · simp [standing]
    · have hbefore := ih h.1 hm
      have hfits := h.2
      cases m with
      | filed c t => exact hbefore
      | completed c v => exact hbefore
      | ticked t => exact hbefore
      | created c =>
        have hc : c ≠ id := fun heq => by
          subst heq
          simp [Fits, hbefore] at hfits
        simpa only [standing, hc, if_false] using hbefore
      | stopped c s' =>
        have hc : c ≠ id := fun heq => by
          subst heq
          simp [Fits, hbefore] at hfits
        simpa only [standing, hc, if_false] using hbefore
      | resumed c =>
        have hc : c ≠ id := fun heq => by
          subst heq
          obtain hexternal | ⟨e, he, rfl, _⟩ := hfits
          · exact absurd (hbefore.symm.trans hexternal) (by obtain rfl | ⟨e, rfl⟩ := hs <;> simp)
          · obtain ⟨n, hasleep⟩ := standing_of_pending h.1 he
            exact absurd (hbefore.symm.trans hasleep) (by obtain rfl | ⟨e, rfl⟩ := hs <;> simp)
        simpa only [standing, hc, if_false] using hbefore

/-! ### Time -/

theorem counter_lt_of_stopped {s : ContextState} (h : wakes id (.stopped id s :: log) = some w) :
    (counter log).toNat < w := by
  rw [wakes, if_pos rfl] at h
  cases s with
  | deferred v =>
    cases v with
    | external => simp [ContextState.sleep?] at h
    | ticks n =>
      simp only [ContextState.sleep?, Option.map_some, Option.some.injEq] at h
      omega
  | _ => simp [ContextState.sleep?] at h

theorem counter_le_of_wakes (h : Lawful log) (hw : wakes id log = some w) :
    (counter log).toNat ≤ w := by
  induction log with
  | nil => cases hw
  | cons m log ih =>
    cases m with
    | filed c t => exact ih h.1 hw
    | completed c v => exact ih h.1 hw
    | created c | resumed c =>
      rw [wakes] at hw
      split at hw
      · cases hw
      · exact ih h.1 hw
    | stopped c s =>
      by_cases hc : c = id
      · subst hc
        have hbefore : (counter log).toNat < w := counter_lt_of_stopped hw
        exact Nat.le_of_lt hbefore
      · rw [wakes, if_neg hc] at hw
        exact ih h.1 hw
    | ticked t =>
      obtain ⟨rfl, hcalm⟩ := h.2
      have hbefore := hcalm id w hw
      have hnext : (counter log + 1).toNat ≤ (counter log).toNat + 1 := by
        rw [UInt64.toNat_add]
        exact Nat.mod_le _ _
      exact Nat.le_trans hnext hbefore

/-- A sleeper is resumed on time. -/
theorem counter_of_resumed (h : Lawful (.resumed id :: log)) (hw : wakes id log = some w) :
    (counter log).toNat = w := by
  have hle := counter_le_of_wakes h.1 hw
  obtain hexternal | ⟨e, he, rfl, hdue, _⟩ := h.2
  · obtain ⟨n, hasleep⟩ := standing_of_wakes hw
    exact absurd (hasleep.symm.trans hexternal) (by simp)
  · obtain rfl : w = e.wakeAt.toNat := Option.some.inj (hw.symm.trans (wakes_of_pending h.1 he))
    exact Nat.le_antisymm hle (UInt64.le_iff_toNat_le.mp hdue)

theorem counter_append (hstill : Still later) : counter (later ++ log) = counter log := by
  induction later with
  | nil => rfl
  | cons m later ih =>
    have hbefore := ih fun t ht => hstill t (List.mem_cons_of_mem _ ht)
    cases m with
    | ticked t => exact absurd List.mem_cons_self (hstill t)
    | _ => exact hbefore

/-- While time stands still, whoever is asleep has been asleep before or has gone to sleep
meanwhile. -/
theorem wakes_append (hstill : Still later) (hw : wakes id (later ++ log) = some w) :
    wakes id log = some w ∧ .resumed id ∉ later ∨
      ∃ n, .stopped id (.deferred (.ticks n)) ∈ later ∧
        w = (counter log).toNat + max n.toNat 1 := by
  induction later with
  | nil => exact Or.inl ⟨hw, by simp⟩
  | cons m later ih =>
    have hbefore := ih fun t ht => hstill t (List.mem_cons_of_mem _ ht)
    -- Anything but a stop of `id` leaves its sleep as it was, and only its being resumed ends the
    -- sleep.
    have hlater (hw : wakes id (later ++ log) = some w) (hne : m ≠ .resumed id) :
        wakes id log = some w ∧ .resumed id ∉ m :: later ∨
          ∃ n, .stopped id (.deferred (.ticks n)) ∈ m :: later ∧
            w = (counter log).toNat + max n.toNat 1 := by
      obtain ⟨hw, hno⟩ | ⟨n, hn, hw⟩ := hbefore hw
      · exact Or.inl ⟨hw, by simp [hno, Ne.symm hne]⟩
      · exact Or.inr ⟨n, List.mem_cons_of_mem _ hn, hw⟩
    rw [List.cons_append] at hw
    cases m with
    | filed c t => exact hlater hw (by simp)
    | completed c v => exact hlater hw (by simp)
    | ticked t => exact hlater hw (by simp)
    | created c =>
      rw [wakes] at hw
      split at hw
      · cases hw
      · exact hlater hw (by simp)
    | resumed c =>
      rw [wakes] at hw
      split at hw <;> rename_i hc
      · cases hw
      · exact hlater hw (by simpa using hc)
    | stopped c s =>
      rw [wakes] at hw
      split at hw <;> rename_i hc
      · subst hc
        cases s with
        | deferred v =>
          cases v with
          | external => simp [ContextState.sleep?] at hw
          | ticks n =>
            simp only [ContextState.sleep?, Option.map_some, Option.some.injEq] at hw
            rw [counter_append fun t ht => hstill t (List.mem_cons_of_mem _ ht)] at hw
            exact Or.inr ⟨n, List.mem_cons_self, hw.symm⟩
        | _ => simp [ContextState.sleep?] at hw
      · exact hlater hw (by simp)

theorem Calm.append (h : Calm log) (hstill : Still later) : Calm (later ++ log) := by
  intro id w hw
  rw [counter_append hstill]
  obtain ⟨hw, _⟩ | ⟨n, _, rfl⟩ := wakes_append hstill hw
  · exact h id w hw
  · omega

/-- No sleeper is resumed twice while time stands still. -/
theorem not_resumed_twice (h : Lawful (.resumed id :: (later ++ .resumed id :: log)))
    (hstill : Still later) (hw : wakes id (later ++ .resumed id :: log) = some w) : False := by
  have hcounter := counter_of_resumed h hw
  rw [counter_append hstill] at hcounter
  obtain ⟨hawake, _⟩ | ⟨n, _, rfl⟩ := wakes_append hstill hw
  · simp [wakes] at hawake
  · simp only [counter] at hcounter
    omega

/-! ### Turns -/

theorem order_le_filings {e : Sleeper} (he : e ∈ pending log) : e.order ≤ filings log := by
  induction log with
  | nil => cases he
  | cons m log ih =>
    cases m with
    | filed c t =>
      obtain rfl | he := List.mem_cons.mp he
      · exact Nat.le_refl _
      · exact Nat.le_succ_of_le (ih he)
    | resumed c => exact ih (List.mem_filter.mp he).1
    | _ => exact ih he

theorem pending_unique (h : Lawful log) {e e' : Sleeper} (he : e ∈ pending log)
    (he' : e' ∈ pending log) (hsame : e.context = e'.context) : e = e' := by
  induction log with
  | nil => cases he
  | cons m log ih =>
    cases m with
    | filed c t =>
      have hfree := h.2.2
      obtain rfl | he := List.mem_cons.mp he
      · obtain rfl | he' := List.mem_cons.mp he'
        · rfl
        · exact absurd hsame.symm (hfree e' he')
      · obtain rfl | he' := List.mem_cons.mp he'
        · exact absurd hsame (hfree e he)
        · exact ih h.1 he he'
    | resumed c => exact ih h.1 (List.mem_filter.mp he).1 (List.mem_filter.mp he').1
    | _ => exact ih h.1 he he'

theorem pending_of_not_resumed {e : Sleeper} (he : e ∈ pending log)
    (hno : .resumed e.context ∉ later) :
    e ∈ pending (later ++ log) := by
  induction later with
  | nil => exact he
  | cons m later ih =>
    rw [List.mem_cons, not_or] at hno
    have hbefore := ih hno.2
    cases m with
    | filed c t => exact List.mem_cons_of_mem _ hbefore
    | resumed c =>
      have hc : e.context ≠ c := fun heq => hno.1 (heq ▸ rfl)
      exact List.mem_filter.mpr ⟨hbefore, by simpa using hc⟩
    | _ => exact hbefore

/-- Of two sleepers that are due on the same tick, the one filed later is not resumed first. -/
theorem resumed_in_turn {a b : ContextId} {t : UInt64} {between earlier : List Milestone}
    (h : Lawful (.resumed b :: (later ++ .filed b t :: (between ++ .filed a t :: earlier))))
    (hb : .resumed b ∉ later) : .resumed a ∈ later ∨ .resumed a ∈ between := by
  refine Decidable.byContradiction fun hno => ?_
  rw [not_or] at hno
  let first : Sleeper := ⟨t, filings earlier + 1, a⟩
  let second : Sleeper := ⟨t, filings (between ++ .filed a t :: earlier) + 1, b⟩
  have hfirst : first ∈ pending (between ++ .filed a t :: earlier) :=
    pending_of_not_resumed List.mem_cons_self hno.2
  have horder : first.order < second.order := Nat.lt_succ_of_le (order_le_filings hfirst)
  have hfirst' : first ∈ pending (later ++ .filed b t :: (between ++ .filed a t :: earlier)) :=
    pending_of_not_resumed (List.mem_cons_of_mem _ hfirst) hno.1
  have hsecond : second ∈ pending (later ++ .filed b t :: (between ++ .filed a t :: earlier)) :=
    pending_of_not_resumed List.mem_cons_self hb
  obtain hexternal | ⟨e, he, hcontext, _, hturn⟩ := h.2
  · obtain ⟨n, hasleep⟩ := standing_of_pending h.1 hsecond
    exact absurd (hasleep.symm.trans hexternal) (by simp)
  · obtain rfl := pending_unique h.1 he hsecond hcontext
    obtain heq | hbefore := hturn first hfirst'
    · rw [heq] at horder
      omega
    · simp only [Sleeper.before, first, second] at hbefore horder
      simp at hbefore
      omega

end Chronicle

end ProcEngine
