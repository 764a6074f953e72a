import ProcEngine.Proofs.Scheduler.Tending
/-!
# Every fault is reported once

A context that a host starts is reported if it stops with a fault, once, and it is never reported
otherwise. Whoever drives it gets null, and so does host code that has started it; a fault gets no
further than that.
-/

namespace ProcEngine

open Chronicle

/-- Whether an event is a report of a context. -/
def Event.isReportOf (id : ContextId) (e : Event) : Bool := e.report?.any fun q => q.1 = id

namespace Chronicle

variable {id : ContextId} {log : List Milestone}

/-- The faults that a context has stopped with. -/
def faultsOf (id : ContextId) (log : List Milestone) : List (ContextId × Fault) :=
  (log.filterMap Milestone.fault?).filter fun q => q.1 = id

theorem faultsOf_eq_nil (h : ∀ why, .stopped id (.faulted why) ∉ log) : faultsOf id log = [] := by
  refine List.filter_eq_nil_iff.mpr fun q hq => ?_
  obtain ⟨m, hm, hfault⟩ := List.mem_filterMap.mp hq
  simp only [decide_eq_true_eq]
  rintro rfl
  cases m with
  | stopped c s =>
    cases s with
    | faulted why =>
      cases hfault
      exact h why hm
    | _ => cases hfault
  | _ => cases hfault

theorem faultsOf_eq_singleton (h : Lawful log) {why : Fault}
    (hm : .stopped id (.faulted why) ∈ log) :
    faultsOf id log = [(id, why)] := by
  induction log with
  | nil => cases hm
  | cons m log ih =>
    obtain rfl | hm := List.mem_cons.mp hm
    · have hnever : ∀ why, .stopped id (.faulted why) ∉ log := fun why' hm' =>
        absurd (h.2.1.symm.trans (standing_of_finished (Or.inr ⟨why', rfl⟩) h.1 hm')) (by simp)
      have hnone := faultsOf_eq_nil hnever
      simp only [faultsOf, List.filterMap_cons, Milestone.fault?, List.filter_cons, decide_true,
        if_true] at hnone ⊢
      rw [hnone]
    · rw [← ih h.1 hm]
      have hstanding := standing_of_finished (Or.inr ⟨why, rfl⟩) h.1 hm
      have hfits := h.2
      cases m with
      | stopped c s =>
        have hc : c ≠ id := by
          rintro rfl
          exact absurd (hstanding.symm.trans hfits.1) (by simp)
        cases s with
        | faulted why' => simp [faultsOf, Milestone.fault?, hc]
        | _ => rfl
      | _ => rfl

end Chronicle

theorem filterMap_report? (id : ContextId) (events : List Event) :
    (events.filter (Event.isReportOf id)).filterMap Event.report? =
      (events.filterMap Event.report?).filter fun q => q.1 = id := by
  induction events with
  | nil => rfl
  | cons e events ih =>
    cases hreport : e.report? with
    | none => simp [Event.isReportOf, hreport, ih]
    | some q =>
      by_cases hq : q.1 = id
      · simp [Event.isReportOf, hreport, hq, ih]
      · simp [Event.isReportOf, hreport, hq, ih]

theorem Event.eq_of_isReportOf {id : ContextId} {e : Event} (h : e.isReportOf id) :
    ∃ why trace, e = .fault id why trace := by
  cases e with
  | fault c why trace =>
    obtain rfl : c = id := by simpa [isReportOf, report?] using h
    exact ⟨why, trace, rfl⟩
  | _ => cases h

/-- What is told of the contexts that stop with a fault, and of those that do not. -/
structure Accounts (deeds : List Milestone) (told : List Event) : Prop where
  faulted : ∀ id why, .stopped id (.faulted why) ∈ deeds →
    ∃ trace, told.filter (Event.isReportOf id) = [.fault id why trace] ∧ Reported id why trace
  silent : ∀ id, (∀ why, .stopped id (.faulted why) ∉ deeds) →
    told.filter (Event.isReportOf id) = []

theorem Accounts.of_lawful {log : List Milestone} {told : List Event} (hlawful : Lawful log)
    (hsame : told.filterMap Event.report? = log.reverse.filterMap Milestone.fault?)
    (hreported : ∀ id why trace, .fault id why trace ∈ told → Reported id why trace) :
    Accounts log.reverse told := by
  have hreports (id : ContextId) :
      (told.filter (Event.isReportOf id)).filterMap Event.report? = (faultsOf id log).reverse := by
    rw [filterMap_report?, hsame, List.filterMap_reverse, List.filter_reverse, faultsOf]
  refine ⟨fun id why hstopped => ?_, fun id hnone => ?_⟩
  · have hone := hreports id
    rw [faultsOf_eq_singleton hlawful (List.mem_reverse.mp hstopped), List.reverse_singleton]
      at hone
    cases hfilter : told.filter (Event.isReportOf id) with
    | nil => simp [hfilter] at hone
    | cons e rest =>
      have hreport {e' : Event} (he' : e' ∈ e :: rest) : e' ∈ told ∧ e'.isReportOf id :=
        List.mem_filter.mp (hfilter ▸ he')
      obtain ⟨why', trace, rfl⟩ := Event.eq_of_isReportOf (hreport List.mem_cons_self).2
      rw [hfilter] at hone
      obtain ⟨heq, hrest⟩ := List.cons.inj hone
      obtain rfl : why' = why := congrArg Prod.snd heq
      cases rest with
      | nil => exact ⟨trace, rfl, hreported _ _ _ (hreport List.mem_cons_self).1⟩
      | cons e' rest =>
        obtain ⟨why', trace', rfl⟩ :=
          Event.eq_of_isReportOf (hreport (List.mem_cons_of_mem _ List.mem_cons_self)).2
        cases hrest
  · refine List.filter_eq_nil_iff.mpr fun e he hreport => ?_
    have hno := hreports id
    rw [faultsOf_eq_nil (by simpa using hnone), List.reverse_nil, List.filterMap_eq_nil_iff] at hno
    obtain ⟨why, trace, rfl⟩ := Event.eq_of_isReportOf hreport
    cases hno _ (List.mem_filter.mpr ⟨he, hreport⟩)

/-! ### What is left of a context -/

/-- How a context ends that ends with a fault, which it does at a moment of its course. -/
structure EndsBy (rt rt' : Runtime) (v : Value) (c : Context) (why : Fault) : Prop where
  value : v = .null
  stack : c.stack = []
  /-- Its report is the last thing that happens. -/
  report : ∃ rt₁ past m top callers calls trace, m.context.id = c.id ∧
    Report past m top callers calls why trace ∧ Reporting rt rt₁ ∧
      rt' = rt₁.tell (.fault c.id why trace)
  /-- Nothing runs of it any more. -/
  inert : ∀ fuel rt, c.resume fuel rt = .ok (.null, c) rt

namespace Context

theorem endsBy_of_resume {n : Nat} {c c' : Context} {rt rt' : Runtime} {v : Value} {why : Fault}
    (hunder : c.UnderWay) (hresume : c.resume n rt = .ok (v, c') rt')
    (hstate : c'.state = .faulted why) :
    EndsBy rt rt' v c' why := by
  rw [resume_eq_run hunder.1] at hresume
  obtain ⟨hvalue, hstack, hreport⟩ := run_faulted hunder hresume hstate
  exact ⟨hvalue, hstack, hreport, resume_finished (by simp [isFinished, hstate])⟩

end Context

theorem Course.faults {past : List Moment} {m : Moment} (h : Course past m.context)
    (hunfinished : ¬ m.context.isFinished) {top : Activation} {callers shown : List Activation}
    {why : Fault} {rt : Runtime} (hstack : m.context.stack = top :: callers)
    (hfaults : m.Faults top callers shown why rt) :
    m.context.resume (m.fuel + 1) m.runtime =
        .ok (.null, { m.context with stack := [], state := .faulted why })
          (rt.tell (.fault m.context.id why (shown.map Activation.traceLine))) ∧
      ∃ calls, Report past m top callers calls why (shown.map Activation.traceLine) := by
  refine ⟨?_, h.report hunfinished hstack hfaults⟩
  have hown := h.coherent.own top (by rw [hstack]; exact List.mem_cons_self)
  have houtcome := hfaults.outcome hstack hown
  rw [Moment.outcome] at houtcome
  rw [Context.resume_eq_run hunfinished]
  simp only [Context.run, houtcome]

/-! ### What host code is told -/

/-- Takes a context further, and gives null if that ends it with a fault. -/
def Drive.IsDiscreet (drive : Drive) : Prop :=
  ∀ c rt, c.UnderWay → (drive c rt).Gives fun q _ => ∀ why, q.2.state = .faulted why → q.1 = .null

theorem Context.run_isDiscreet (n : Nat) : Drive.IsDiscreet (run n) := by
  intro c rt hunder
  have hgives := Reporting.upkept.run n c rt hunder
  cases hrun : c.run n rt with
  | ok q rt' => exact fun why hstate => (run_faulted hunder hrun hstate).1
  | fault e rt' =>
    rw [hrun] at hgives
    exact hgives.elim
  | breach b rt' => trivial
  | exhausted => trivial

theorem Context.resume_isDiscreet (n : Nat) : Drive.IsDiscreet (resume n) := by
  intro c rt hunder
  rw [resume_eq_run hunder.1]
  exact run_isDiscreet n c rt hunder

namespace Runtime

variable {drive : Drive} (hlawful : drive.IsLawful) (hdiscreet : drive.IsDiscreet)
include hlawful hdiscreet

theorem callWith_gives (p : ProcRef) (i : Invocation) (rt : Runtime) :
    (callWith drive p i rt).Gives fun v rt' => ∃ s, rt'.chronicle.head? =
      some (.stopped (rt.contexts + 1) s) ∧
      ∀ why, s = .faulted why → v = .null := by
  rw [callWith_eq]
  by_cases hdepth : rt.maxDepth = 0
  · rw [if_pos hdepth]
    exact ⟨_, rfl, fun _ _ => rfl⟩
  · rw [if_neg hdepth]
    have hopened := opened_underWay hdepth p i
    have hlawful := hlawful (rt.opened p i).1 (rt.opened p i).2
    have hnull := hdiscreet (rt.opened p i).1 (rt.opened p i).2 hopened
    cases hdrive : drive (rt.opened p i).1 (rt.opened p i).2 with
    | ok q rt' =>
      rw [hdrive] at hlawful hnull
      obtain ⟨_, hid, _⟩ := hlawful
      refine ⟨q.2.state, ?_, hnull⟩
      have hhead : (rt'.leave q.2).chronicle.head? = some (.stopped q.2.id q.2.state) := by
        rw [leave]
        split <;> rfl
      rw [hhead, hid]
      rfl
    | fault e rt' =>
      rw [hdrive] at hlawful
      exact hlawful.elim
    | breach b rt' => trivial
    | exhausted => trivial

/-- Host code that constructs an object gets it, whatever becomes of the construction. -/
theorem constructWith_gives (fuel : Nat) (path : String) (arguments : Arguments)
    (usr : Option ObjectRef) {rt rt₁ : Runtime} {o : ObjectRef}
    (hallocate : onStore (Store.serve fuel (.allocate path)) rt = .ok o rt₁) :
    (constructWith fuel drive path arguments usr rt).Gives fun o' _ => o' = o := by
  simp only [constructWith, Act.bind_apply, hallocate]
  exact Act.gives_bind (callWith_gives hlawful hdiscreet init _ rt₁) fun _ _ _ => rfl

end Runtime

/-- What host code learns of the contexts that `drive` runs for it. A fault in one of them is not
among that. -/
structure Drive.Shields (drive : Drive) : Prop where
  call : ∀ fuel p i rt, (Runtime.serve fuel drive (.call p i) rt).Gives fun v rt' =>
    ∃ s, rt'.chronicle.head? = some (.stopped (rt.contexts + 1) s) ∧ ∀ why, s = .faulted why →
      v = .null
  construct :
    ∀ fuel path arguments usr rt, match Runtime.onStore (Store.serve fuel (.allocate path)) rt with
    | .ok o _ =>
      (Runtime.serve fuel drive (.construct path arguments usr) rt).Gives fun o' _ => o' = o
    | .fault why rt' => Runtime.serve fuel drive (.construct path arguments usr) rt = .fault why rt'
    | .breach .. | .exhausted => True

theorem Drive.shields {drive : Drive} (hlawful : drive.IsLawful) (hdiscreet : drive.IsDiscreet) :
    drive.Shields where
  call _ p i rt := Runtime.callWith_gives hlawful hdiscreet p i rt
  construct fuel path arguments usr rt := by
    cases hallocate : Runtime.onStore (Store.serve fuel (.allocate path)) rt with
    | ok o rt₁ =>
      exact Runtime.constructWith_gives hlawful hdiscreet fuel path arguments usr hallocate
    | fault why rt₁ =>
      show Runtime.constructWith fuel drive path arguments usr rt = .fault why rt₁
      rw [Runtime.constructWith, Act.bind_apply, hallocate]
      rfl
    | breach b rt₁ => trivial
    | exhausted => trivial

namespace Host

variable {h h' : Host} {episodes : List Episode}

/-- Whatever a host does, a context is reported if it stops with a fault, once, and at no other
time. Whatever fault arises at a moment ends the context there, with a report of its stack; whoever
drives it gets null, then and ever after, and so does host code that has started it. -/
theorem Runs.faults_contained (hfresh : h.IsFresh) (hruns : h.Runs episodes h') :
    (∃ told, h'.runtime.store.journal.toList = h.runtime.store.journal.toList ++ told ∧
      Accounts (episodes.flatMap Episode.deeds) told) ∧
    (∀ c ∈ h'.held, c.UnderWay) ∧
    (∀ past (m : Moment) top callers shown why rt, Course past m.context → ¬ m.context.isFinished →
      m.context.stack = top :: callers → m.Faults top callers shown why rt →
      m.context.resume (m.fuel + 1) m.runtime =
          .ok (.null, { m.context with stack := [], state := .faulted why })
            (rt.tell (.fault m.context.id why (shown.map Activation.traceLine))) ∧
        ∃ calls, Report past m top callers calls why (shown.map Activation.traceLine)) ∧
    (∀ n (c c' : Context) rt rt' v why, c.UnderWay → c.resume n rt = .ok (v, c') rt' →
      c'.state = .faulted why →
      EndsBy rt rt' v c' why) ∧
    ∀ n, Drive.Shields (Context.run n) ∧ Drive.Shields (Context.resume n) := by
  have hin := hfresh.inOrder
  have htending := (hfresh.tending Tells).runs Tells.upkept hruns
  refine ⟨?_, fun c hc => underWay_of_held htending hc, ?_, ?_, fun n => ⟨?_, ?_⟩⟩
  · obtain ⟨log, told, hlog, htold, hsame, hreported⟩ := htending.since
    have hdeeds : log = (episodes.flatMap Episode.deeds).reverse := by
      rw [hruns.chronicle hin] at hlog
      exact (List.append_cancel_right hlog).symm
    have hlawful : Chronicle.Lawful log := by
      have hlawful := (hruns.inOrder hin).books.lawful
      rwa [hlog, hfresh.chronicle, List.append_nil] at hlawful
    refine ⟨told, htold, ?_⟩
    have haccounts := Accounts.of_lawful hlawful hsame hreported
    rwa [hdeeds, List.reverse_reverse] at haccounts
  · intro past m top callers shown why rt hcourse hunfinished hstack hfaults
    exact hcourse.faults hunfinished hstack hfaults
  · intro n c c' rt rt' v why hunder hresume hstate
    exact Context.endsBy_of_resume hunder hresume hstate
  · exact Drive.shields (Context.run_isLawful n) (Context.run_isDiscreet n)
  · exact Drive.shields (Context.resume_isLawful n) (Context.resume_isDiscreet n)

def crashing : Host where
  runtime := {
    procs := #[
      { signature := { name := "main" },
        body := .script #[.push (.int 7), .call "inner" 0, .ret] 0 },
      { signature := { name := "inner" },
        body := .script #[.jump 2, .pop, .push (.text "no"), .crash] 0 }]
    globals := (∅ : Names ProcRef).insert "inner" ⟨2, "inner"⟩ }

theorem crash_is_reported : ∃ episodes h', crashing.Runs episodes h' ∧
    h'.runtime.store.journal.toList =
      [.fault 1 (.script "no") [⟨"inner", .instruction 3⟩, ⟨"main", .instruction 1⟩]] ∧
    episodes.flatMap Episode.deeds = [.created 1, .stopped 1 (.faulted (.script "no"))] ∧
    Accounts (episodes.flatMap Episode.deeds) h'.runtime.store.journal.toList := by
  have hperforms : ((crashing.performAll 20 [.run ⟨1, "main"⟩ {}]).map fun q =>
      (q.2.runtime.store.journal.toList, q.1.flatMap Episode.deeds)) = some (
        [.fault 1 (.script "no") [⟨"inner", .instruction 3⟩, ⟨"main", .instruction 1⟩]],
        [.created 1, .stopped 1 (.faulted (.script "no"))]) := by decide +kernel
  obtain ⟨⟨episodes, h'⟩, hperform, heq⟩ := Option.map_eq_some_iff.mp hperforms
  obtain ⟨hjournal, hdeeds⟩ := Prod.mk.inj heq
  have hruns := runs_of_performAll hperform
  obtain ⟨⟨told, htold, haccounts⟩, _⟩ := Runs.faults_contained ⟨rfl, rfl, rfl⟩ hruns
  have htold : h'.runtime.store.journal.toList = told := htold
  exact ⟨episodes, h', hruns, hjournal, hdeeds, htold ▸ haccounts⟩

end Host

end ProcEngine
