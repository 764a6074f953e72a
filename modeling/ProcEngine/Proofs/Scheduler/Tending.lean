import ProcEngine.Proofs.Context.Calls
import ProcEngine.Proofs.Context.Faults
import ProcEngine.Proofs.Scheduler.Custody
/-!
# Whom a host tends

Every context that a host holds has come about by steps and is not finished, so what is known of the
courses of contexts is known of all of them; and what is upheld while contexts run is upheld by
whatever a host does.
-/

namespace ProcEngine

theorem Upkept.completion {R : Runtime → Runtime → Prop} [Std.Refl R] [Trans R R R]
    (hR : Upkept R) (fuel : Nat)
    (completion : Completion) (id : ContextId) (v : Value) (rt : Runtime) :
    (completion.run fuel id v rt).Gives fun _ rt' => R (rt.record (.completed id v)) rt' :=
  Completion.run_gives (Act.Preserves.run (hR.carried.serve (hR.callWith (hR.resume fuel)) fuel)
    (completion v)) rt

/-- What holds of a scheduler and a runtime that have come of the runtime `rt₀`. -/
structure Tending (R : Runtime → Runtime → Prop) (rt₀ : Runtime) (s : Scheduler)
    (rt : Runtime) : Prop where
  parked : ∀ (id : ContextId) (p : Parked), s.parked[id]? = some p → p.context.UnderWay
  detached : ∀ c ∈ rt.detached, c.UnderWay
  since : R rt₀ rt

namespace Tending

variable {R : Runtime → Runtime → Prop} [Std.Refl R] [Trans R R R] (hR : Upkept R)
  {rt₀ rt rt' : Runtime} {s : Scheduler}

omit [Std.Refl R] in
theorem later (h : Tending R rt₀ s rt) (hreporting : Reporting rt rt') (hrt : R rt rt') :
    Tending R rt₀ s rt' where
  parked := h.parked
  detached := hreporting.detached h.detached
  since := Trans.trans h.since hrt

omit [Std.Refl R] [Trans R R R] in
/-- One more context may be filed, whatever becomes of the queue. -/
theorem file (h : Tending R rt₀ s rt) {p : Parked} (hp : p.context.UnderWay) {s' : Scheduler}
    (hs : s'.parked = (s.file p).parked) : Tending R rt₀ s' rt where
  parked id q hq := by
    rw [hs, Scheduler.file, Std.ExtTreeMap.getElem?_insert] at hq
    split at hq
    · cases hq
      exact hp
    · exact h.parked id q hq
  detached := h.detached
  since := h.since

omit [Std.Refl R] [Trans R R R] in
theorem erase (h : Tending R rt₀ s rt) (id : ContextId) :
    Tending R rt₀ { s with parked := s.parked.erase id } rt where
  parked id' q hq := by
    rw [Std.ExtTreeMap.getElem?_erase] at hq
    split at hq
    · cases hq
    · exact h.parked id' q hq
  detached := h.detached
  since := h.since

include hR

omit [Std.Refl R] in
theorem record (h : Tending R rt₀ s rt) {m : Milestone} (hm : m.fault? = none) :
    Tending R rt₀ s (rt.record m) :=
  h.later (Reporting.upkept.recorded rt m hm) (hR.recorded rt m hm)

theorem completion (fuel : Nat) (h : Tending R rt₀ s rt) (completion : Completion) (id : ContextId)
    (v : Value) :
    (completion.run fuel id v rt).Gives fun _ rt' => Tending R rt₀ s rt' := by
  have hrecorded := h.record hR (m := .completed id v) rfl
  have hgives :=
    (Reporting.upkept.completion fuel completion id v rt).and
      (hR.completion fuel completion id v rt)
  exact hgives.mono fun _ rt' ⟨hreporting, hrt⟩ => hrecorded.later hreporting hrt

theorem park (fuel : Nat) (h : Tending R rt₀ s rt) {p : Parked}
    (hcourse : ∃ past, Course past p.context) (v : Value) :
    (s.park fuel p v rt).Gives (Tending R rt₀) := by
  have hunder {w : Wait} (hstate : p.context.state = .deferred w) : p.context.UnderWay :=
    ⟨by simp [Context.isFinished, hstate], hcourse⟩
  cases hstate : p.context.state with
  | deferred w =>
    cases w with
    | ticks n =>
      simp only [Scheduler.park, hstate]
      rw [Act.need_bind]
      split
      · exact Runtime.recording_gives ((h.record hR rfl).file (hunder hstate) rfl)
      · trivial
    | external =>
      simp only [Scheduler.park, hstate]
      exact h.file (hunder hstate) rfl
  | ready | returned | faulted why =>
    simp only [Scheduler.park, hstate]
    cases p.completion with
    | none => exact h
    | some completion =>
      exact Act.gives_bind (h.completion hR fuel completion p.context.id v) fun _ rt' h' => h'

theorem parkAll (fuel : Nat) (h : Tending R rt₀ s rt) {contexts : List Context}
    (hunder : ∀ c ∈ contexts, c.UnderWay) :
    (s.parkAll fuel contexts rt).Gives (Tending R rt₀) := by
  induction contexts generalizing s rt with
  | nil => exact h
  | cons c contexts ih =>
    have hparked := h.park hR fuel (p := { context := c }) (hunder c List.mem_cons_self).2 .null
    exact Act.gives_bind hparked fun s' rt' h' => ih h' fun c' hc' =>
      hunder c' (List.mem_cons_of_mem _ hc')

theorem adopt (fuel : Nat) (h : Tending R rt₀ s rt) : (s.adopt fuel rt).Gives (Tending R rt₀) := by
  have hnobody : Tending R rt₀ s { rt with detached := #[] } :=
    ⟨h.parked, by simp, Trans.trans h.since (hR.vacated rt)⟩
  exact hnobody.parkAll hR fuel fun c hc => h.detached c (Array.mem_toList_iff.mp hc)

theorem drive (fuel : Nat) (h : Tending R rt₀ s rt) {p : Parked} (hp : p.context.UnderWay) :
    (s.drive fuel p rt).Gives (Tending R rt₀) := by
  have hgives := (Reporting.upkept.resume fuel p.context rt hp).and (hR.resume fuel p.context rt hp)
  refine Act.gives_bind hgives fun ⟨v, c⟩ rt₁ ⟨⟨hcourse, hreporting⟩, _, hrt⟩ => ?_
  have hparked := (h.later hreporting hrt).park hR fuel (p := { p with context := c }) hcourse v
  exact Runtime.recording_gives (Act.gives_bind hparked fun s' rt' h' => h'.adopt hR fuel)

theorem rouse (fuel : Nat) (h : Tending R rt₀ s rt) {p : Parked} (hp : p.context.UnderWay) :
    (s.rouse fuel p rt).Gives (Tending R rt₀) :=
  Runtime.recording_gives (((h.record hR rfl).erase p.context.id).drive hR fuel hp)

theorem callAsync (fuel : Nat) (h : Tending R rt₀ s rt) (p : ProcRef) (i : Invocation)
    (completion : Option Completion) : (s.callAsync fuel p i completion rt).Gives fun q =>
      Tending R rt₀ q.2 := by
  rw [Scheduler.callAsync_eq]
  by_cases hdepth : rt.maxDepth = 0
  · rw [if_pos hdepth]
    have hrefused := h.later (Reporting.upkept.of_refused hdepth p i) (hR.of_refused hdepth p i)
    cases completion with
    | none => exact hrefused
    | some completion =>
      exact Act.gives_bind (hrefused.completion hR fuel completion (rt.contexts + 1) .null)
        fun _ rt' h' => h'
  · rw [if_neg hdepth]
    have hbegun := h.later (Reporting.upkept.opened rt p i) (hR.opened rt p i)
    exact Act.gives_bind (hbegun.drive hR fuel (Runtime.opened_underWay hdepth p i))
      fun s' rt' h' => h'

theorem wake (fuel : Nat) (h : Tending R rt₀ s rt) (id : ContextId) :
    (s.wake fuel id rt).Gives fun q => Tending R rt₀ q.2 := by
  simp only [Scheduler.wake]
  cases hp : s.parked[id]? with
  | none => exact h
  | some p =>
    dsimp only
    split
    · exact Act.gives_bind (h.rouse hR fuel (h.parked id p hp)) fun s' rt' h' => h'
    · exact h

theorem resumeDue (fuel : Nat) (resumed : Nat) (h : Tending R rt₀ s rt) :
    (Scheduler.resumeDue fuel s resumed rt).Gives fun q => Tending R rt₀ q.2 := by
  induction fuel generalizing s rt resumed with
  | zero => trivial
  | succ fuel ih =>
    simp only [Scheduler.resumeDue]
    cases hs : s.sleepers with
    | nil => exact h
    | cons first rest =>
      dsimp only
      split
      · exact h
      · have hrest : Tending R rt₀ { s with sleepers := rest } rt := ⟨h.parked, h.detached, h.since⟩
        cases hp : s.parked[first.context]? with
        | none => exact ih resumed hrest
        | some p =>
          exact Act.gives_bind (hrest.rouse hR fuel (h.parked _ p hp)) fun s' rt' h' =>
            ih (resumed + 1) h'

theorem advance (fuel : Nat) (h : Tending R rt₀ s rt) : (s.advance fuel rt).Gives fun q =>
    Tending R rt₀ q.2 := by
  refine Act.gives_bind (h.adopt hR fuel) fun s' rt' h' =>
    Runtime.recording_gives (resumeDue hR fuel 0 ?_)
  have hlater := h'.record hR (m := .ticked (s'.tick + 1)) rfl
  exact ⟨hlater.parked, hlater.detached, hlater.since⟩

/-! ### Operations -/

variable {h h' : Host} {fuel : Nat} {op : Operation} {e : Episode} {episodes : List Episode}

theorem perform (htend : Tending R rt₀ h.scheduler h.runtime)
    (hperform : h.perform fuel op = some (e, h')) :
    Tending R rt₀ h'.scheduler h'.runtime := by
  have hreporting := Reporting.upkept.callWith (Reporting.upkept.resume fuel)
  have hcalled := hR.callWith (hR.resume fuel)
  have hkept {α : Type} {x : Act Runtime α} (hx : Act.Preserves Reporting x)
      (hx' : Act.Preserves R x) (f : α → Answer)
      (hact : op.act fuel h.scheduler = x >>= fun a => Pure.pure (f a, h.scheduler)) :
      Tending R rt₀ h'.scheduler h'.runtime :=
    Host.of_preserves (Q := fun _ h' => Tending R rt₀ h'.scheduler h'.runtime) (hx.and hx') f hact
      (fun _ _ hrt => htend.later hrt.1 hrt.2) hperform
  cases op with
  | run p i => exact hkept (hreporting p i) (hcalled p i) _ rfl
  | callOn o name arguments usr =>
    exact hkept ((Carried.ask _).bind fun p => hreporting p _)
      ((Carried.ask _).bind fun p => hcalled p _) _ rfl
  | newObject path arguments usr =>
    exact hkept (Reporting.upkept.carried.serve hreporting fuel (.construct path arguments usr))
      (hR.carried.serve hcalled fuel (.construct path arguments usr)) _ rfl
  | spawn p i =>
    refine Host.of_gives (Q := fun _ h' => Tending R rt₀ h'.scheduler h'.runtime) ?_ hperform
    exact Act.gives_bind (htend.callAsync hR fuel p i none) fun q rt h => h
  | callAsync p i completion =>
    refine Host.of_gives (Q := fun _ h' => Tending R rt₀ h'.scheduler h'.runtime) ?_ hperform
    exact Act.gives_bind (htend.callAsync hR fuel p i completion) fun q rt h => h
  | wake c =>
    refine Host.of_gives (Q := fun _ h' => Tending R rt₀ h'.scheduler h'.runtime) ?_ hperform
    exact Act.gives_bind (htend.wake hR fuel c) fun q rt h => h
  | tick =>
    refine Host.of_gives (Q := fun _ h' => Tending R rt₀ h'.scheduler h'.runtime) ?_ hperform
    exact Act.gives_bind (htend.advance hR fuel) fun q rt h => h

theorem runs (htend : Tending R rt₀ h.scheduler h.runtime) (hruns : h.Runs episodes h') :
    Tending R rt₀ h'.scheduler h'.runtime := by
  induction hruns with
  | nil => exact htend
  | cons hperform _ ih => exact ih (htend.perform hR hperform)

end Tending

namespace Host

variable {h h' : Host} {episodes : List Episode}

theorem IsFresh.tending (R : Runtime → Runtime → Prop) [Std.Refl R] (hfresh : h.IsFresh) :
    Tending R h.runtime h.scheduler h.runtime where
  parked id p hp := by simp [hfresh.scheduler] at hp
  detached c hc := by simp [hfresh.detached] at hc
  since := Std.Refl.refl _

/-- Whoever a host holds is under way. -/
theorem underWay_of_held {R : Runtime → Runtime → Prop}
    (htend : Tending R h.runtime h'.scheduler h'.runtime)
    {c : Context} (hc : c ∈ h'.held) : c.UnderWay := by
  obtain hc | hc := List.mem_append.mp hc
  · exact htend.detached c (Array.mem_toList_iff.mp hc)
  · obtain ⟨⟨id, p⟩, hentry, rfl⟩ := List.mem_map.mp hc
    exact htend.parked id p (Std.ExtTreeMap.mem_toList_iff_getElem?_eq_some.mp hentry)

/-- Whoever a host holds has come about by steps, whoever is resumed has taken steps when it stops,
and whatever steps a context has taken, calls and returns match in it. -/
theorem Runs.calls_match (hfresh : h.IsFresh) (hruns : h.Runs episodes h') :
    (∀ c ∈ h'.held, ¬ c.isFinished ∧ ∃ past, Course past c) ∧
    (∀ n past (c : Context) rt v c' rt', Course past c → ¬ c.isFinished →
      c.resume n rt = .ok (v, c') rt' →
      ∃ (m : Moment) (later : List Moment), Course (m :: (later ++ past)) c' ∧
        m.outcome = .ok (.stopped v c') rt') ∧
    ∀ past c, Course past c → CallsMatch past c := by
  have htending := (hfresh.tending Reporting).runs Reporting.upkept hruns
  refine ⟨fun c hc => underWay_of_held htending hc, ?_, fun past c hcourse => hcourse.callsMatch⟩
  intro n past c rt v c' rt' hcourse hunfinished hresume
  rw [Context.resume_eq_run hunfinished] at hresume
  obtain ⟨m, later, hcourse', hunfinished', hstop, _⟩ :=
    Reporting.upkept.course hcourse hunfinished hresume
  exact ⟨m, later, .step hcourse' hunfinished' hstop, hstop⟩

/-- A host with a proc that calls one that sleeps. -/
def dozing : Host where
  runtime := {
    procs := #[
      { signature := { name := "main" }
        body := .script #[.push (.int 3), .push (.int 4), .call "doze" 1, .add, .ret] 0 },
      { signature := { name := "doze", params := ["n"] }
        body :=
          .routine false fun i _ => .ask (.sleep 1) fun _ =>
            .done (i.arguments.positional.headD .null) }]
    globals := (∅ : Names ProcRef).insert "doze" ⟨2, "doze"⟩ }

theorem dozing_calls_match : ∃ episodes h' c, dozing.Runs episodes h' ∧ c ∈ h'.held ∧
    c.stack.map (fun a => a.traceLine.text) =
      ["doze (native, suspendable)", "main (instruction 2)"] ∧
    ∃ past, Course past c ∧ CallsMatch past c := by
  have hperforms : ((dozing.performAll 20 [.run ⟨1, "main"⟩ {}]).map fun q =>
      q.2.held.map fun c => c.stack.map fun a => a.traceLine.text) =
        some [["doze (native, suspendable)", "main (instruction 2)"]] := by decide +kernel
  obtain ⟨⟨episodes, h'⟩, hperform, hheld⟩ := Option.map_eq_some_iff.mp hperforms
  obtain ⟨c, rest, hheld', hstack, _⟩ := List.map_eq_cons_iff.mp hheld
  have hc : c ∈ h'.held := by
    rw [hheld']
    exact List.mem_cons_self
  have hruns := runs_of_performAll hperform
  obtain ⟨hpasts, _, hmatch⟩ := Runs.calls_match ⟨rfl, rfl, rfl⟩ hruns
  obtain ⟨_, past, hcourse⟩ := hpasts c hc
  exact ⟨episodes, h', c, hruns, hc, hstack, past, hcourse, hmatch past c hcourse⟩

end Host

end ProcEngine
