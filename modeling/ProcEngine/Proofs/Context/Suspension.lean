import ProcEngine.Proofs.Context.Tandem
import ProcEngine.Proofs.Fuel
/-!
# Suspension is transparent

A call whose context is resumed until it is finished comes to the same end, and leaves the same
behind, whether its scripts sleep or drop what they would sleep for and go on. Resumptions only cut
the steps of a context into runs, so it is enough to compare the steps.
-/

namespace ProcEngine

namespace Context

variable {c c' : Context}

/-! ### From step to step -/

/-- The steps that a context can take, whatever fuel that needs. -/
def Steps (c : Context) (rt : Runtime) (p : Progress) (rt' : Runtime) : Prop :=
  ∃ n, c.step n (run n) rt = .ok p rt'

/-- What becomes of a context and a runtime as long as nothing else happens. -/
inductive GetsTo (c : Context) (rt : Runtime) : Context → Runtime → Prop
  | refl : GetsTo c rt c rt
  | step {c' : Context} {rt' rt'' : Runtime} {p : Progress} : GetsTo c rt c' rt' →
    c'.Steps rt' p rt'' →
    GetsTo c rt p.context rt''

/-- A context that is resumed until it is finished, with nothing else happening meanwhile, ends with
a value and in a state. -/
inductive Completes : Context → Runtime → Value → ContextState → Runtime → Prop
  | finished {n : Nat} {c c' : Context} {rt rt' : Runtime} {v : Value} :
    c.resume n rt = .ok (v, c') rt' →
    c'.isFinished → Completes c rt v c'.state rt'
  | again {n : Nat} {c c' : Context} {rt rt' rt'' : Runtime} {v v' : Value} {s : ContextState} :
    c.resume n rt = .ok (v, c') rt' → ¬ c'.isFinished → Completes c' rt' v' s rt'' →
      Completes c rt v' s rt''

/-- The same, one step after the other. -/
inductive Ends : Context → Runtime → Value → ContextState → Runtime → Prop
  | last {c c' : Context} {rt rt' : Runtime} {v : Value} : c.Steps rt (.stopped v c') rt' →
    c'.isFinished →
    Ends c rt v c'.state rt'
  | next {c : Context} {p : Progress} {rt rt' rt'' : Runtime} {v : Value} {s : ContextState} :
    c.Steps rt p rt' →
    ¬ p.context.isFinished → Ends p.context rt' v s rt'' → Ends c rt v s rt''

variable {rt rt' rt'' : Runtime} {p : Progress} {v : Value} {s : ContextState}

theorem GetsTo.head (hstep : c.Steps rt p rt') (h : p.context.GetsTo rt' c' rt'') :
    c.GetsTo rt c' rt'' := by
  induction h with
  | refl => exact .step .refl hstep
  | step _ hlast ih => exact .step ih hlast

theorem Steps.grows (h : c.Steps rt p rt') : rt.contexts ≤ rt'.contexts := by
  obtain ⟨n, hn⟩ := h
  exact ((step_gives (run_isLawful n) n c rt).of_ok hn).1.contexts

theorem Ends.grows (h : c.Ends rt v s rt') : rt.contexts ≤ rt'.contexts := by
  induction h with
  | last hstep _ => exact hstep.grows
  | next hstep _ _ ih => exact Nat.le_trans hstep.grows ih

theorem ends_of_run {n : Nat} (hc : ¬ c.isFinished) (hrun : c.run n rt = .ok (v, c') rt') :
    (c'.isFinished → c.Ends rt v c'.state rt') ∧
      (¬ c'.isFinished → ∀ v' s rt'', c'.Ends rt' v' s rt'' → c.Ends rt v' s rt'') := by
  induction n generalizing c rt with
  | zero => cases hrun
  | succ n ih =>
    obtain hstop | ⟨c₁, rt₁, hstep, hrun⟩ := run_ok hrun
    · exact ⟨fun hfinished => .last ⟨n, hstop⟩ hfinished, fun hunfinished v' s rt'' hrest =>
        .next ⟨n, hstop⟩ hunfinished hrest⟩
    · have hc₁ := unfinished_of_running hc hstep
      obtain ⟨hends, hgoesOn⟩ := ih hc₁ hrun
      exact ⟨fun hfinished => .next ⟨n, hstep⟩ hc₁ (hends hfinished),
        fun hunfinished v' s rt'' hrest =>
        .next ⟨n, hstep⟩ hc₁ (hgoesOn hunfinished v' s rt'' hrest)⟩

theorem Completes.ends (hc : ¬ c.isFinished) (h : c.Completes rt v s rt') : c.Ends rt v s rt' := by
  induction h with
  | finished hresume hfinished =>
    rw [resume_eq_run hc] at hresume
    exact (ends_of_run hc hresume).1 hfinished
  | again hresume hunfinished _ ih =>
    rw [resume_eq_run hc] at hresume
    exact (ends_of_run hc hresume).2 hunfinished _ _ _ (ih hunfinished)

theorem run_of_running {m n : Nat} (hstep : c.step n (run n) rt = .ok (.running c') rt')
    (hended : c'.run m rt' ≠ .exhausted) : ∃ n, c.run n rt = c'.run m rt' := by
  have hstep' := step_mono (Nat.le_max_right m n) (run_mono (Nat.le_max_right m n)) c rt
  have hrun' := run_mono (Nat.le_max_left m n) c' rt'
  rw [hstep] at hstep'
  refine ⟨max m n + 1, ?_⟩
  simp only [run, Outcome.eq_of_le hstep' (by simp)]
  exact Outcome.eq_of_le hrun' hended

theorem Ends.completes (hc : ¬ c.isFinished) (h : c.Ends rt v s rt') : c.Completes rt v s rt' := by
  induction h with
  | @last c c' rt rt' v hstep hfinished =>
    obtain ⟨n, hn⟩ := hstep
    have hrun : c.run (n + 1) rt = .ok (v, c') rt' := by simp only [run, hn]
    exact .finished ((resume_eq_run hc _ _).trans hrun) hfinished
  | @next c p rt rt' rt'' v s hstep hunfinished _ ih =>
    obtain ⟨n, hn⟩ := hstep
    cases p with
    | running c₁ =>
      cases ih hunfinished with
      | finished hresume hfinished =>
        have hresume : c₁.run _ _ = _ := (resume_eq_run hunfinished _ _).symm.trans hresume
        obtain ⟨n, hrun⟩ := run_of_running hn (by rw [hresume]; rintro ⟨⟩)
        exact .finished ((resume_eq_run hc _ _).trans (hrun.trans hresume)) hfinished
      | again hresume hunfinished' hrest =>
        have hresume : c₁.run _ _ = _ := (resume_eq_run hunfinished _ _).symm.trans hresume
        obtain ⟨n, hrun⟩ := run_of_running hn (by rw [hresume]; rintro ⟨⟩)
        exact .again ((resume_eq_run hc _ _).trans (hrun.trans hresume)) hunfinished' hrest
    | stopped v₁ c₁ =>
      have hrun : c.run (n + 1) rt = .ok (v₁, c₁) rt' := by simp only [run, hn]
      exact .again ((resume_eq_run hc _ _).trans hrun) hunfinished (ih hunfinished)

theorem Steps.step_eq (h : c.Steps rt p rt') {n : Nat} (hn : c.step n (run n) rt ≠ .exhausted) :
    c.step n (run n) rt = .ok p rt' := by
  obtain ⟨m, hm⟩ := h
  have hm' := step_mono (Nat.le_max_left m n) (run_mono (Nat.le_max_left m n)) c rt
  have hn' := step_mono (Nat.le_max_right m n) (run_mono (Nat.le_max_right m n)) c rt
  rw [hm] at hm'
  rw [← Outcome.eq_of_le hn' hn]
  exact Outcome.eq_of_le hm' (by simp)

/-- Whether a context comes to its end and all of its sleeps fit, as far as `n` steps can tell. -/
def fitsFor : (n : Nat) → Context → Runtime → Bool
  | 0, _, _ => false
  | n + 1, c, rt =>
    decide c.SleepFits && match c.step n (run n) rt with
      | .ok p rt => fitsFor n p.context rt
      | .fault .. | .breach .. => true
      | .exhausted => false

theorem fits_of_fitsFor {n : Nat} (h : c.fitsFor n rt) (hgets : c.GetsTo rt c' rt') :
    c'.SleepFits := by
  have hfits {c : Context} {rt : Runtime} {n : Nat} (h : c.fitsFor n rt) : c.SleepFits := by
    cases n with
    | zero => cases h
    | succ n =>
      simp only [fitsFor, Bool.and_eq_true, decide_eq_true_eq] at h
      exact h.1
  suffices hsome : ∃ n, c'.fitsFor n rt' from hsome.elim fun n hn => hfits hn
  induction hgets with
  | refl => exact ⟨n, h⟩
  | step _ hstep ih =>
    obtain ⟨n, hn⟩ := ih
    cases n with
    | zero => cases hn
    | succ n =>
      simp only [fitsFor, Bool.and_eq_true] at hn
      obtain ⟨_, hn⟩ := hn
      have heq := hstep.step_eq (n := n)
      split at hn
      · rename_i hrun
        cases hrun.symm.trans (heq (by rw [hrun]; simp))
        exact ⟨n, hn⟩
      · rename_i hrun
        cases hrun.symm.trans (heq (by rw [hrun]; simp))
      · rename_i hrun
        cases hrun.symm.trans (heq (by rw [hrun]; simp))
      · cases hn

/-! ### Asleep and awake -/

theorem Steps.awaken (h : c.Steps rt p rt') (halike : c.Alike c') (hc : ¬ c.isFinished)
    (hc' : ¬ c'.isFinished) (hfits : c.SleepFits) (halone : rt'.contexts ≤ rt.contexts) :
    ∃ p', c'.Steps rt.awake p' rt'.awake ∧ p.Alike p' := by
  obtain ⟨n, hn⟩ := h
  have htandem := step_tandem (run_isLawful n) n halike hc hc' hfits (Nat.le_refl rt.contexts)
  rw [hn] at htandem
  generalize hn' : c'.step n (run n) rt.awake = y at htandem
  cases htandem with
  | together hprogress => exact ⟨_, ⟨n, hn'⟩, hprogress⟩
  | apart hmore _ => exact absurd halone (Nat.not_le_of_lt (hmore _ _ rfl))

theorem Steps.of_awake {p' : Progress} (h : c'.Steps rt.awake p' rt') (halike : c.Alike c')
    (hc : ¬ c.isFinished)
    (hc' : ¬ c'.isFinished) (hfits : c.SleepFits) (halone : rt'.contexts ≤ rt.contexts) :
    ∃ p rt₁, c.Steps rt p rt₁ ∧ rt' = rt₁.awake ∧ p.Alike p' := by
  obtain ⟨n, hn'⟩ := h
  have htandem := step_tandem (run_isLawful n) n halike hc hc' hfits (Nat.le_refl rt.contexts)
  rw [hn'] at htandem
  generalize hn : c.step n (run n) rt = x at htandem
  cases htandem with
  | together hprogress => exact ⟨_, _, ⟨n, hn⟩, rfl, hprogress⟩
  | apart _ hmore => exact absurd halone (Nat.not_le_of_lt (hmore _ _ rfl))

/-- Whatever a context comes to that sleeps, it comes to awake. -/
theorem Ends.awaken (h : c.Ends rt v s rt') (halike : c.Alike c') (hc : ¬ c.isFinished)
    (hc' : ¬ c'.isFinished)
    (hfits : ∀ d rt', c.GetsTo rt d rt' → d.SleepFits) (halone : rt'.contexts ≤ rt.contexts) :
    c'.Ends rt.awake v s rt'.awake := by
  induction h generalizing c' with
  | last hstep hfinished =>
    obtain ⟨p', hstep', hprogress⟩ := hstep.awaken halike hc hc' (hfits _ _ .refl) halone
    cases hprogress with
    | on _ hunfinished _ => exact absurd hfinished hunfinished
    | ended _ hstate =>
      rw [← hstate]
      exact .last hstep' (by rwa [isFinished, hstate])
  | next hstep _ hrest ih =>
    have halone₁ := Nat.le_trans hrest.grows halone
    obtain ⟨p', hstep', hprogress⟩ := hstep.awaken halike hc hc' (hfits _ _ .refl) halone₁
    cases hprogress with
    | on hgoesOn hunfinished hunfinished' =>
      have hfits₁ : ∀ d rt', GetsTo _ _ d rt' → d.SleepFits :=
        fun d rt' hd => hfits d rt' (hd.head hstep)
      exact .next hstep' hunfinished'
        (ih hgoesOn hunfinished hunfinished' hfits₁ (Nat.le_trans halone hstep.grows))
    | ended hfinished _ => contradiction

/-- Whatever it comes to awake, it comes to when it sleeps. -/
theorem Ends.of_awake (h : c'.Ends rt'' v s rt') (hrt : rt'' = rt.awake) (halike : c.Alike c')
    (hc : ¬ c.isFinished) (hc' : ¬ c'.isFinished) (hfits : ∀ d rt', c.GetsTo rt d rt' → d.SleepFits)
    (halone : rt'.contexts ≤ rt.contexts) :
    ∃ rt₁, c.Ends rt v s rt₁ ∧ rt' = rt₁.awake := by
  induction h generalizing c rt with
  | last hstep hfinished =>
    subst hrt
    obtain ⟨p, rt₁, hstep', rfl, hprogress⟩ := hstep.of_awake halike hc hc' (hfits _ _ .refl) halone
    cases hprogress with
    | on _ _ hunfinished => exact absurd hfinished hunfinished
    | ended hfinished hstate =>
      rw [hstate]
      exact ⟨rt₁, .last hstep' hfinished, rfl⟩
  | next hstep hunfinished' hrest ih =>
    subst hrt
    have halone₁ := Nat.le_trans hrest.grows halone
    obtain ⟨p, rt₁, hstep', rfl, hprogress⟩ :=
      hstep.of_awake halike hc hc' (hfits _ _ .refl) halone₁
    cases hprogress with
    | on hgoesOn hunfinished _ =>
      have hfits₁ : ∀ d rt', GetsTo _ _ d rt' → d.SleepFits :=
        fun d rt' hd => hfits d rt' (hd.head hstep')
      obtain ⟨rt₂, hends, heq⟩ :=
        ih rfl hgoesOn hunfinished hunfinished' hfits₁ (Nat.le_trans halone hstep'.grows)
      exact ⟨rt₂, .next hstep' hunfinished hends, heq⟩
    | @ended _ _ c₂ hfinished hstate =>
      have hfinished' : c₂.isFinished := by rwa [isFinished, hstate]
      exact absurd hfinished' hunfinished'

end Context

/-! ### Entry calls -/

namespace Runtime

/-- What a call from outside comes to if its context is resumed until it is finished. -/
inductive Answers (rt : Runtime) (p : ProcRef) (i : Invocation) : Value → ContextState →
    Runtime → Prop
  | refused : rt.maxDepth = 0 → Answers rt p i .null (.faulted (.stackOverflow rt.maxDepth))
    (rt.refused p i)
  | driven {v : Value} {s : ContextState} {rt' : Runtime} : rt.maxDepth ≠ 0 →
    (rt.opened p i).1.Completes (rt.opened p i).2 v s rt' → Answers rt p i v s rt'

theorem refused_awake (rt : Runtime) (p : ProcRef) (i : Invocation) :
    rt.awake.refused p i = (rt.refused p i).awake := by
  rw [refused, opened_awake]
  rfl

/-- Suspension is transparent: as long as no sleep is given a text, an object or a proc, and nobody
starts any more contexts, a call ends with the same value and in the same state whether or not its
scripts sleep, and it leaves the same runtime behind, with the same objects and the same journal. -/
theorem answers_awake_iff (rt : Runtime) (p : ProcRef) (i : Invocation)
    (hfits : ∀ c rt', (rt.opened p i).1.GetsTo (rt.opened p i).2 c rt' → c.SleepFits)
    (v : Value) (s : ContextState) (rt' : Runtime) :
    (rt.awake.Answers p i v s rt' ∧ rt'.contexts = rt.contexts + 1) ↔
      ∃ rt₁, rt.Answers p i v s rt₁ ∧ rt₁.contexts = rt.contexts + 1 ∧ rt' = rt₁.awake := by
  have hopened := opened_awake rt p i
  have halike : (rt.opened p i).1.Alike (rt.opened p i).1.awake := ⟨_, rfl⟩
  have hunfinished : ¬ (rt.opened p i).1.isFinished := Bool.false_ne_true
  have hcontexts : rt.contexts + 1 ≤ (rt.opened p i).2.contexts := (Keeps.opened rt p i).contexts
  constructor
  · intro ⟨hanswers, halone⟩
    cases hanswers with
    | refused hdepth =>
      rw [refused_awake] at halone ⊢
      exact ⟨rt.refused p i, .refused hdepth, halone, rfl⟩
    | driven hdepth hcompletes =>
      rw [hopened] at hcompletes
      have hends : (rt.opened p i).1.awake.Ends (rt.opened p i).2.awake v s rt' :=
        hcompletes.ends hunfinished
      obtain ⟨rt₁, hasleep, rfl⟩ :=
        hends.of_awake rfl halike hunfinished hunfinished hfits (by omega)
      exact ⟨rt₁, .driven hdepth (hasleep.completes hunfinished), halone, rfl⟩
  · rintro ⟨rt₁, hanswers, halone, rfl⟩
    refine ⟨?_, halone⟩
    cases hanswers with
    | refused hdepth =>
      rw [← refused_awake]
      exact .refused hdepth
    | driven hdepth hcompletes =>
      have hends :=
        (hcompletes.ends hunfinished).awaken halike hunfinished hunfinished hfits (by omega)
      refine .driven hdepth ?_
      rw [hopened]
      exact hends.completes hunfinished

def dozing : Runtime where
  procs := #[
    { signature := { name := "main" }
      body := .routine false fun _ _ => .ask (.invoke ⟨2, "doze"⟩ {}) fun
        | .ok v => .ask (.host (.table (.note (.native v)))) fun _ => .done v
        | .error e => .fail e },
    { signature := { name := "doze" }
      body := .script #[.push (.int 2), .sleep, .push (.int 7), .ret] 0 }]

theorem dozing_fits (c : Context) (rt' : Runtime)
    (h : (dozing.opened ⟨1, "main"⟩ {}).1.GetsTo (dozing.opened ⟨1, "main"⟩ {}).2 c rt') :
    c.SleepFits :=
  Context.fits_of_fitsFor (n := 20) (by decide +kernel) h

theorem dozing_is_transparent : ∃ rt₁, dozing.Answers ⟨1, "main"⟩ {} (.int 7) .returned rt₁ ∧
    rt₁.store.journal.toList = [.native (.int 7)] ∧ rt₁.contexts = 1 ∧
    dozing.awake.Answers ⟨1, "main"⟩ {} (.int 7) .returned rt₁.awake := by
  obtain ⟨v, c, rt, c', rt₁, hfirst, hsleeps, hlast, hstate, hjournal, hcontexts⟩ : ∃ v c rt c' rt₁,
      (dozing.opened ⟨1, "main"⟩ {}).1.resume 20 (dozing.opened ⟨1, "main"⟩ {}).2 = .ok (v, c) rt ∧
      c.state = .deferred (.ticks 2) ∧ c.resume 20 rt = .ok (.int 7, c') rt₁ ∧
        c'.state = .returned ∧
      rt₁.store.journal.toList = [.native (.int 7)] ∧ rt₁.contexts = 1 :=
        ⟨_, _, _, _, _, rfl, rfl, rfl, rfl, rfl, rfl⟩
  have hends : c.Completes rt (.int 7) .returned rt₁ := by
    rw [← hstate]
    exact .finished hlast (by simp [Context.isFinished, hstate])
  have hanswers : dozing.Answers ⟨1, "main"⟩ {} (.int 7) .returned rt₁ :=
    .driven (by decide) (.again hfirst (by simp [Context.isFinished, hsleeps]) hends)
  have hawake :=
    (answers_awake_iff dozing ⟨1, "main"⟩ {} dozing_fits _ _ _).mpr ⟨rt₁, hanswers, hcontexts, rfl⟩
  exact ⟨rt₁, hanswers, hjournal, hcontexts, hawake.1⟩

end Runtime

end ProcEngine
