import Mathlib.Data.List.Induction
import ProcEngine.Proofs.Scheduler.Custody
/-!
# Waking

A context that waits for the outside is resumed when it is woken, provided that the scheduler has
adopted it. That it has from the first operation on in which it takes somebody up or moves time on,
the one in which the context stopped included; before that the context is adrift, and waking it does
nothing.
-/

namespace ProcEngine

open Chronicle

namespace Chronicle

variable {id : ContextId} {log later : List Milestone}

theorem standing_before {s : ContextState} (h : standing id (later ++ log) = some (.stopped s))
    (hno : ∀ s', .stopped id s' ∉ later) : standing id log = some (.stopped s) := by
  induction later with
  | nil => exact h
  | cons m later ih =>
    have hbefore (h : standing id (later ++ log) = some (.stopped s)) :
        standing id log = some (.stopped s) :=
      ih h fun s' hm => hno s' (List.mem_cons_of_mem _ hm)
    rw [List.cons_append] at h
    cases m with
    | filed c t => exact hbefore h
    | completed c v => exact hbefore h
    | ticked t => exact hbefore h
    | created c | resumed c =>
      rw [standing] at h
      split at h
      · cases h
      · exact hbefore h
    | stopped c s' =>
      have hc : c ≠ id := fun heq => hno s' (heq ▸ List.mem_cons_self)
      rw [standing, if_neg hc] at h
      exact hbefore h

theorem standing_of_not_resumed {s : ContextState} (h : Lawful (later ++ log))
    (hno : .resumed id ∉ later) (hstopped : standing id log = some (.stopped s)) :
    standing id (later ++ log) = some (.stopped s) ∧ ∀ s', .stopped id s' ∉ later := by
  induction later with
  | nil => exact ⟨hstopped, by simp⟩
  | cons m later ih =>
    rw [List.mem_cons, not_or] at hno
    obtain ⟨hbefore, hnever⟩ := ih h.1 hno.2
    have hfits := h.2
    cases m with
    | filed c t => exact ⟨hbefore, by simpa using hnever⟩
    | completed c v => exact ⟨hbefore, by simpa using hnever⟩
    | ticked t => exact ⟨hbefore, by simpa using hnever⟩
    | created c =>
      have hc : c ≠ id := fun heq => by
        subst heq
        exact absurd (hbefore.symm.trans hfits) (by simp)
      exact ⟨by simpa only [List.cons_append, standing, hc, if_false] using hbefore,
        by simpa using hnever⟩
    | resumed c =>
      have hc : c ≠ id := fun heq => hno.1 (heq ▸ rfl)
      exact ⟨by simpa only [List.cons_append, standing, hc, if_false] using hbefore,
        by simpa using hnever⟩
    | stopped c s' =>
      have hc : c ≠ id := fun heq => by
        subst heq
        exact absurd (hbefore.symm.trans hfits.1) (by simp)
      exact ⟨by simpa only [List.cons_append, standing, hc, if_false] using hbefore,
        by simpa [Ne.symm hc] using hnever⟩

end Chronicle

/-! ### Adoption -/

/-- The scheduler has taken over whoever was adrift at some time since the context stopped last. -/
def Adopted (id : ContextId) (episodes : List Episode) : Prop :=
  ∃ before e after, episodes = before ++ e :: after ∧ e.settles ∧
    ∀ e' ∈ after, ∀ s, .stopped id s ∉ e'.deeds

theorem adopted_of_settles {id : ContextId} {before : List Episode} {e : Episode} (h : e.settles) :
    Adopted id (before ++ [e]) := ⟨before, e, [], rfl, h, by simp⟩

theorem adopted_append_iff {id : ContextId} {before : List Episode} {e : Episode}
    (h : ¬ e.settles) :
    Adopted id (before ++ [e]) ↔ Adopted id before ∧ ∀ s, .stopped id s ∉ e.deeds := by
  constructor
  · rintro ⟨earlier, e', after, heq, hsettles, hno⟩
    obtain rfl | ⟨after, last, rfl⟩ := after.eq_nil_or_concat
    · obtain ⟨_, hlast⟩ := List.append_inj' heq rfl
      cases hlast
      exact absurd hsettles h
    · rw [List.concat_eq_append, ← List.cons_append, ← List.append_assoc] at heq
      obtain ⟨rfl, hlast⟩ := List.append_inj' heq rfl
      cases hlast
      refine ⟨⟨earlier, e', after, rfl, hsettles, fun e'' he'' => hno e'' ?_⟩, hno e ?_⟩ <;>
        simp_all
  · rintro ⟨⟨earlier, e', after, rfl, hsettles, hno⟩, hlast⟩
    refine ⟨earlier, e', after ++ [e], by simp, hsettles, fun e'' he'' => ?_⟩
    obtain he'' | he'' := List.mem_append.mp he''
    · exact hno e'' he''
    · rw [List.mem_singleton.mp he'']
      exact hlast

theorem Ledger.adrift_iff {active : List ContextId} {adrift : List Context} {s : Scheduler}
    {contexts : Nat}
    {log : List Milestone} (h : Ledger active adrift s contexts log) {id : ContextId} {w : Wait}
    (hstopped : standing id log = some (.stopped (.deferred w))) :
    id ∈ adrift.map Context.id ↔ s.parked[id]? = none := by
  constructor
  · intro hid
    obtain ⟨c, hc, rfl⟩ := List.mem_map.mp hid
    exact (h.floats c hc).2.2
  · intro habsent
    refine (h.kept id w hstopped).resolve_left ?_
    rw [habsent]
    simp

/-! ### Taking up -/

namespace Scheduler

variable {s : Scheduler} {rt rt' : Runtime} {fuel : Nat}

theorem park_returns {p : Parked} (hintime : ¬ s.Oversleeps p.context) (rt : Runtime)
    (fuel : Nat) (v : Value) (hends : (∀ w, p.context.state ≠ .deferred w) → ∀ k ∈ p.completion,
      ∃ rt', k.run fuel p.context.id v rt = .ok () rt') :
    ∃ s' rt', s.park fuel p v rt = .ok s' rt' := by
  cases hstate : p.context.state with
  | deferred w =>
    cases w with
    | ticks n =>
      have hrange : s.due n < UInt64.size := Nat.not_le.mp fun hlate => hintime ⟨n, hstate, hlate⟩
      simp only [park, hstate]
      rw [Act.need_bind, if_pos hrange]
      exact ⟨_, _, rfl⟩
    | external => exact ⟨_, _, by simp only [park, hstate]; rfl⟩
  | ready | returned | faulted why =>
    cases hk : p.completion with
    | none => exact ⟨_, _, by simp only [park, hstate, hk]; rfl⟩
    | some k =>
      obtain ⟨rt', hrun⟩ := hends (by simp [hstate]) k hk
      exact ⟨_, _, by simp only [park, hstate, hk, Act.bind_apply, hrun]; rfl⟩

/-- The context, once it has stopped, oversleeps, or somebody does who is adrift when it has been
filed. -/
def Overruns (fuel : Nat) (s : Scheduler) (p : Parked) (v : Value) (rt : Runtime) : Prop :=
  s.Oversleeps p.context ∨ ∃ s' rt', s.park fuel p v rt = .ok s' rt' ∧
    ∃ c ∈ rt'.detached, s'.Oversleeps c

/-- A turn comes to an end if the context stops again, and if its completion does where it finishes,
unless somebody oversleeps who is filed then. -/
theorem rouse_ends {p : Parked} {v : Value} {c : Context}
    (hresume : p.context.resume fuel (rt.record (.resumed p.context.id)) = .ok (v, c) rt')
    (hends : c.isFinished → ∀ k ∈ p.completion,
      ∃ rt'', k.run fuel c.id v (rt'.record (.stopped c.id c.state)) = .ok () rt'') :
    (∃ s' rt'', s.rouse fuel p rt = .ok s' rt'') ∨
      Overruns fuel { s with parked := s.parked.erase p.context.id } { p with context := c } v
          (rt'.record (.stopped c.id c.state)) ∧
        ∃ rt'', s.rouse fuel p rt = .breach .addOverflow rt'' := by
  obtain ⟨_, _, hready⟩ := (Context.resume_isLawful fuel p.context _).of_ok hresume
  have hfinished (hstate : ∀ w, c.state ≠ .deferred w) : c.isFinished := by
    cases h : c.state <;> simp_all [Context.isFinished]
  let s₀ : Scheduler := { s with parked := s.parked.erase p.context.id }
  have hrouse :
      s.rouse fuel p rt = (s₀.park fuel { p with context := c } v >>= fun s => s.adopt fuel)
      (rt'.record (.stopped c.id c.state)) := by
    simp only [rouse, drive, Runtime.recording, Act.bind_apply, hresume]
    rfl
  rw [hrouse, Act.bind_apply]
  -- Two things are filed in a turn: the context itself, and whoever is adrift then.
  by_cases hlate : s₀.Oversleeps c
  · rw [Oversleeps.park_eq (p := { p with context := c }) hlate]
    exact Or.inr ⟨Or.inl hlate, _, rfl⟩
  · obtain ⟨s₁, rt₁, hpark⟩ :=
      park_returns (p := { p with context := c }) hlate (rt'.record (.stopped c.id c.state))
      fuel v fun hstate => hends (hfinished hstate)
    rw [hpark]
    obtain ⟨_, s₂, rt₂, hadopt, _⟩ | ⟨hadrift, rt₂, hadopt, _⟩ := adopt_untold fuel s₁ rt₁
    · exact Or.inl ⟨s₂, rt₂, hadopt⟩
    · exact Or.inr ⟨Or.inr ⟨s₁, rt₁, hpark, hadrift⟩, rt₂, hadopt⟩

end Scheduler

/-! ### Adrift from one operation to the next -/

namespace Host

variable {h h' : Host} {episodes : List Episode} {e : Episode} {op : Operation} {fuel : Nat}
  {id : ContextId}

theorem keeps_of_not_settles (hin : h.InOrder) (hperform : h.perform fuel op = some (e, h')) :
    ¬ e.settles → h'.scheduler = h.scheduler ∧ Keeps h.runtime h'.runtime := by
  let Q (e : Episode) (h' : Host) : Prop :=
    ¬ e.settles → h'.scheduler = h.scheduler ∧ Keeps h.runtime h'.runtime
  have hleft (answer : Except Fault Answer) (rt : Runtime) (hkeeps : Keeps h.runtime rt) :
      Q (h.episode op answer ⟨rt, h.scheduler⟩) ⟨rt, h.scheduler⟩ := fun _ => ⟨rfl, hkeeps⟩
  cases op with
  | run p i => exact of_preserves (Keeping.call fuel p i) _ rfl hleft hperform
  | callOn o name arguments usr =>
    exact of_preserves (Keeping.callOn fuel o name arguments usr) _ rfl hleft hperform
  | newObject path arguments usr =>
    exact of_preserves (Keeping.newObject fuel path arguments usr) _ rfl hleft hperform
  | spawn p i | callAsync p i completion | tick =>
    intro hunsettled
    simp [Episode.settles, operation_of_perform hperform] at hunsettled
  | wake c =>
    refine of_gives (Q := Q)
      (Act.gives_bind (Scheduler.wake_gives fuel c hin.books) fun q rt hq => ?_) hperform
    obtain ⟨rfl, rfl⟩ | ⟨hwoken, _⟩ := hq
    · exact hleft _ _ (Keeps.refl h.runtime)
    · exact fun hunsettled => absurd hwoken hunsettled

/-- Whoever waits or sleeps is adrift until the scheduler adopts it. -/
theorem Runs.adrift_iff (hfresh : h.IsFresh) (hruns : h.Runs episodes h') {w : Wait}
    (hstopped : standing id h'.runtime.chronicle = some (.stopped (.deferred w))) :
    id ∈ h'.runtime.detached.toList.map Context.id ↔ ¬ Adopted id episodes := by
  induction episodes using List.reverseRecOn generalizing h' with
  | nil =>
    cases hruns
    rw [hfresh.chronicle] at hstopped
    cases hstopped
  | append_singleton before e ih =>
    obtain ⟨h₁, hbefore, hlast⟩ := hruns.split
    have hin := hbefore.inOrder hfresh.inOrder
    have hbooks := (hruns.inOrder hfresh.inOrder).books
    cases hlast with
    | cons hperform hdone =>
      cases hdone
      have hpasses := Host.passes hin hperform
      by_cases hsettles : e.settles
      · simp [hpasses.settled hsettles, adopted_of_settles hsettles]
      · obtain ⟨hsame, hkeeps⟩ := keeps_of_not_settles hin hperform hsettles
        obtain ⟨log, hlog, hrun⟩ := hkeeps.adds
        obtain rfl : log = e.deeds.reverse :=
          List.append_cancel_right (hlog.symm.trans hpasses.chronicle)
        rw [hlog] at hstopped
        rw [adopted_append_iff hsettles, hbooks.adrift_iff (hlog ▸ hstopped), hsame]
        by_cases hagain : ∃ s, .stopped id s ∈ e.deeds
        · -- It has stopped since, so that it was not parked then: nobody has taken it up meanwhile.
          obtain ⟨s, hagain⟩ := hagain
          refine iff_of_true (Option.eq_none_iff_forall_ne_some.mpr fun p hp => ?_) fun hboth =>
            hboth.2 s hagain
          have hresumed : .resumed id ∉ e.deeds.reverse := fun hm => hrun _ hm
          have hlawful : Lawful (e.deeds.reverse ++ h₁.runtime.chronicle) := hlog ▸ hbooks.lawful
          obtain ⟨_, hnever⟩ :=
            standing_of_not_resumed hlawful hresumed (hin.books.parked id p hp).2.1
          exact hnever s (List.mem_reverse.mpr hagain)
        · have hno : ∀ s, .stopped id s ∉ e.deeds := fun s hm => hagain ⟨s, hm⟩
          have hthen := standing_before hstopped (by simpa using hno)
          rw [← hin.books.adrift_iff hthen, ih hbefore hthen]
          simp [hno]

/-! ### Wake-ups -/

/-- Waking the context resumes it, and says so. It comes to an end if the context stops again and
its completion, which is run when it finishes, ends too, unless somebody oversleeps who is filed
then. -/
structure Resumes (h : Host) (id : ContextId) : Prop where
  woken : ∀ fuel e h', h.perform fuel (.wake id) = some (e, h') →
    e.answer = .ok (.woken true) ∧ ∃ later, e.deeds = .resumed id :: later
  returns : ∃ p, h.scheduler.parked[id]? = some p ∧ ∀ fuel v c rt,
    p.context.resume fuel (h.runtime.record (.resumed id)) = .ok (v, c) rt →
    (c.isFinished →
      ∀ k ∈ p.completion, ∃ rt', k.run fuel c.id v (rt.record (.stopped c.id c.state)) =
        .ok () rt') →
    (∃ e h', h.perform fuel (.wake id) = some (e, h')) ∨
      Scheduler.Overruns fuel { h.scheduler with parked := h.scheduler.parked.erase id }
        { p with context := c } v
          (rt.record (.stopped c.id c.state)) ∧
        ∃ rt', h.scheduler.wake fuel id h.runtime = .breach .addOverflow rt'

/-- Waking the context does nothing, and says so. -/
def Ignores (h : Host) (id : ContextId) : Prop :=
  ∀ fuel, h.scheduler.wake fuel id h.runtime = .ok (false, h.scheduler) h.runtime

theorem InOrder.wake_of_parked (hin : h.InOrder) {p : Parked}
    (hp : h.scheduler.parked[id]? = some p)
    (hwaits : p.context.state = .deferred .external) : h.Resumes id := by
  obtain ⟨rfl, _⟩ := hin.books.parked id p hp
  have hwake (fuel : Nat) : (Operation.wake p.context.id).act fuel h.scheduler =
      h.scheduler.rouse fuel p >>= fun s => Pure.pure (.woken true, s) := by
    funext rt
    simp only [Operation.act, Scheduler.wake, hp, hwaits, if_true, Act.bind_apply]
    cases h.scheduler.rouse fuel p rt <;> rfl
  have htaken := hin.books.woken hp hwaits
  constructor
  · intro fuel e h' hperform
    refine of_gives (Q := fun e _ => e.answer = .ok (.woken true) ∧
      ∃ later, e.deeds = .resumed _ :: later) ?_ hperform
    rw [hwake]
    refine Act.gives_bind (Scheduler.rouse_gives fuel htaken) fun s rt hsettles => ⟨rfl, ?_⟩
    obtain ⟨log, hlog, _⟩ := hsettles.quiet.adds
    refine ⟨log.reverse, ?_⟩
    have hlog' : rt.chronicle = (log ++ [.resumed p.context.id]) ++ h.runtime.chronicle := by
      rw [List.append_assoc]
      exact hlog
    rw [deeds_eq hlog']
    simp
  · refine ⟨p, hp, fun fuel v c rt hresume hends => ?_⟩
    obtain ⟨s', rt', hrouse⟩ | ⟨hoverruns, rt', hrouse⟩ :=
      Scheduler.rouse_ends (s := h.scheduler) hresume hends
    · refine Or.inl ?_
      simp only [perform, hwake, Act.bind_apply, hrouse]
      exact ⟨_, _, rfl⟩
    · refine Or.inr ⟨hoverruns, rt', ?_⟩
      simp only [Scheduler.wake, hp, hwaits, if_true, Act.bind_apply, hrouse]

theorem ignores_of_absent (habsent : h.scheduler.parked[id]? = none) : h.Ignores id := by
  intro fuel
  simp only [Scheduler.wake, habsent]
  rfl

/-- Whatever a host has done, waking a context that waits for the outside resumes it if the
scheduler has adopted it since it stopped, and does nothing otherwise. -/
theorem Runs.wake_of_waiting (hfresh : h.IsFresh) (hruns : h.Runs episodes h')
    (hwaits : standing id (episodes.flatMap Episode.deeds).reverse =
      some (.stopped (.deferred .external))) :
    (Adopted id episodes → h'.Resumes id) ∧ (¬ Adopted id episodes → h'.Ignores id) := by
  have hin := hruns.inOrder hfresh.inOrder
  have hchronicle := hruns.chronicle hfresh.inOrder
  rw [hfresh.chronicle, List.append_nil] at hchronicle
  rw [← hchronicle] at hwaits
  have hadrift := hruns.adrift_iff hfresh hwaits
  rw [hin.books.adrift_iff hwaits] at hadrift
  constructor
  · intro hadopted
    obtain ⟨p, hp⟩ := Option.ne_none_iff_exists'.mp fun habsent => hadrift.mp habsent hadopted
    have hstanding := (hin.books.parked id p hp).2.1
    rw [hwaits, Option.some.injEq, Standing.stopped.injEq] at hstanding
    exact hin.wake_of_parked hp hstanding.symm
  · intro hnot
    exact ignores_of_absent (hadrift.mpr hnot)

/-- Waking whoever waits for the outside resumes it, whatever the host has done since. -/
def NoWakeLost (h : Host) : Prop := ∀ episodes h' id fuel e h'', h.Runs episodes h' →
  standing id (episodes.flatMap Episode.deeds).reverse = some (.stopped (.deferred .external)) →
  h'.perform fuel (.wake id) = some (e, h'') → e.answer = .ok (.woken true) ∧ .resumed id ∈ e.deeds

def pausing : Host where
  runtime := {
    procs := #[{
      signature := { name := "pause" }
      body := .routine false fun _ _ => .ask .wait fun _ => .done .null }] }

theorem adopted_pause_is_woken : ∃ episodes h', pausing.Runs episodes h' ∧
    standing 1 (episodes.flatMap Episode.deeds).reverse = some (.stopped (.deferred .external)) ∧
    Adopted 1 episodes ∧ h'.Resumes 1 := by
  have hperforms : ((pausing.performAll 9 [.run ⟨1, "pause"⟩ {}, .tick]).map fun q =>
      (q.1.map Episode.settles, q.1.flatMap Episode.deeds)) =
        some ([false, true], [.created 1, .stopped 1 (.deferred .external), .ticked 1]) := by
          decide +kernel
  obtain ⟨⟨episodes, h'⟩, hperform, heq⟩ := Option.map_eq_some_iff.mp hperforms
  obtain ⟨hsettles, hdeeds⟩ := Prod.mk.inj heq
  obtain ⟨first, rest, rfl, _, hrest⟩ := List.map_eq_cons_iff.mp hsettles
  obtain ⟨last, rest, rfl, hsettled, hnil⟩ := List.map_eq_cons_iff.mp hrest
  obtain rfl := List.map_eq_nil_iff.mp hnil
  have hruns := runs_of_performAll hperform
  have hwaits : standing 1 (([first, last] : List Episode).flatMap Episode.deeds).reverse =
      some (.stopped (.deferred .external)) := by
    rw [hdeeds]
    rfl
  have hadopted : Adopted 1 ([first] ++ [last]) := adopted_of_settles hsettled
  exact ⟨_, h', hruns, hwaits, hadopted,
    (Runs.wake_of_waiting ⟨rfl, rfl, rfl⟩ hruns hwaits).1 hadopted⟩

theorem wake_is_lost : pausing.IsFresh ∧ ¬ pausing.NoWakeLost := by
  refine ⟨⟨rfl, rfl, rfl⟩, fun hnone => ?_⟩
  have hperforms : ((pausing.performAll 9 [.run ⟨1, "pause"⟩ {}]).map fun q =>
      (q.1.flatMap Episode.deeds, (q.2.perform 9 (.wake 1)).map fun q' => q'.1.deeds)) =
        some ([.created 1, .stopped 1 (.deferred .external)], some []) := by decide +kernel
  obtain ⟨⟨episodes, h'⟩, hperform, heq⟩ := Option.map_eq_some_iff.mp hperforms
  obtain ⟨hdeeds, hwake⟩ := Prod.mk.inj heq
  obtain ⟨⟨e, h''⟩, hwake, hidle⟩ := Option.map_eq_some_iff.mp hwake
  have hwaits : standing 1 (episodes.flatMap Episode.deeds).reverse =
      some (.stopped (.deferred .external)) := by
    rw [hdeeds]
    rfl
  have hresumed := (hnone episodes h' 1 9 e h'' (runs_of_performAll hperform) hwaits hwake).2
  rw [hidle] at hresumed
  cases hresumed

end Host

end ProcEngine
