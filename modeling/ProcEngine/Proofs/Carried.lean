import Mathlib.Logic.Relation
import ProcEngine.Execution
import ProcEngine.Proofs.Preserves
/-!
# What execution carries along

Scripts and host code get at the runtime in three ways: they work on the object table, they mark
contexts when they enter procs, and they run contexts of their own. Whatever hooks there are, work
on the table comes down to a few kinds of changes, one after the other (`Store.Worked`). A relation
between runtimes that holds when a store is worked on and when a proc is entered is `Carried`; every
step of an activation preserves it if running contexts does.
-/

namespace ProcEngine

variable {α : Type}

/-! ### The store -/

/-- One change of an object table. -/
inductive ObjectTable.Change (t : ObjectTable) : ObjectTable → Prop
  | assign (o : ObjectRef) (name : String) (v : Value) : Change t (t.assign o name v)
  | retire (o : ObjectRef) : Change t (t.retire o)
  | allocate {path : String} {q : ObjectRef × ObjectTable} : t.allocate path = .ok q → Change t q.2
  | referenceId {o : ObjectRef} {q : UInt32 × ObjectTable} : t.referenceId o = .ok q → Change t q.2

def ObjectTable.Evolves : ObjectTable → ObjectTable → Prop :=
  Relation.ReflTransGen ObjectTable.Change

/-- One change of a store. -/
inductive Store.Change (s : Store) : Store → Prop
  | table {t : ObjectTable} : s.objects.Change t → Change s { s with objects := t }
  | deed (d : Deed) : Change s { s with deeds := d :: s.deeds }
  | note {e : Event} : e.isReport = false → Change s { s with journal := s.journal.push e }

/-- What may become of a store that is worked on, by whatever hooks. -/
def Store.Worked : Store → Store → Prop := Relation.ReflTransGen Store.Change

/-- What becomes of a journal meanwhile: notes are added to it, and no report. -/
def Store.Notes (s s' : Store) : Prop :=
  ∃ notes : List Event, s'.journal.toList = s.journal.toList ++ notes ∧
    ∀ e ∈ notes, e.isReport = false

abbrev Working (x : Act Store α) : Prop := Act.Preserves Store.Worked x

namespace Store.Notes

theorem of_eq {s s' : Store} (h : s'.journal = s.journal) : Notes s s' := ⟨[], by simp [h], by simp⟩

theorem refl (s : Store) : Notes s s := of_eq rfl

theorem trans {s s' s'' : Store} (h : Notes s s') (h' : Notes s' s'') : Notes s s'' := by
  obtain ⟨notes, heq, hnotes⟩ := h
  obtain ⟨notes', heq', hnotes'⟩ := h'
  refine ⟨notes ++ notes', by rw [heq', heq, List.append_assoc], fun e he => ?_⟩
  exact (List.mem_append.mp he).elim (hnotes e) (hnotes' e)

end Store.Notes

namespace Store.Worked

variable {s s' : Store}

instance : Std.Refl Worked := ⟨fun _ => .refl⟩

instance : Trans Worked Worked Worked := ⟨Relation.ReflTransGen.trans⟩

theorem single (h : s.Change s') : s.Worked s' := Relation.ReflTransGen.single h

/-- Whatever is done to the object table, nothing is reported. -/
theorem notes (h : s.Worked s') : s.Notes s' := by
  induction h with
  | refl => exact Notes.refl s
  | tail _ hchange ih =>
    refine ih.trans ?_
    cases hchange with
    | table => exact Notes.of_eq rfl
    | deed => exact Notes.of_eq rfl
    | @note e hreport => exact ⟨[e], by simp, by simpa using hreport⟩

theorem evolves (h : s.Worked s') : s.objects.Evolves s'.objects := by
  induction h with
  | refl => exact Relation.ReflTransGen.refl
  | tail _ hchange ih =>
    cases hchange with
    | table htable => exact ih.tail htable
    | deed | note => exact ih

end Store.Worked

namespace Working

theorem note (e : Event) : Working (Store.note e) := by
  intro s s' hs
  cases hs
  split
  · exact Std.Refl.refl s
  · rename_i hreport
    exact .single (.note (by simpa using hreport))

theorem record (d : Deed) : Working (Store.record d) := by
  intro s s' hs
  cases hs
  exact .single (.deed d)

theorem onTable {f : ObjectTable → Except Fault (α × ObjectTable)}
    (hf : ∀ t q, f t = .ok q → t.Change q.2) : Working (Store.onTable f) := by
  intro s s' hs
  simp only [Store.onTable] at hs
  split at hs <;> cases hs
  · rename_i a t heq
    exact .single (.table (hf s.objects (a, t) heq))
  · exact Std.Refl.refl s

theorem ask (f : ObjectTable → Except Fault α) : Working (Store.ask f) := by
  intro s s' hs
  simp only [Store.ask] at hs
  split at hs <;> cases hs <;> exact Std.Refl.refl s

theorem assign (o : ObjectRef) (name : String) (v : Value) :
    Working (Store.onTable fun t => .ok ((), t.assign o name v)) :=
  onTable fun t q h => by
    cases h
    exact .assign o name v

theorem retire (o : ObjectRef) : Working (Store.onTable fun t => .ok ((), t.retire o)) :=
  onTable fun t q h => by
    cases h
    exact .retire o

theorem read (fuel : Nat) (o : ObjectRef) (name : String) : Working (Store.read fuel o name) := by
  induction fuel generalizing o name with
  | zero =>
    intro s s' hs
    cases hs
  | succ fuel ih =>
    simp only [Store.read]
    refine (ask _).bind fun q => ?_
    cases q.1.definition.hooks with
    | none => exact Act.Preserves.pure _
    | some hooks =>
      refine Act.Preserves.run (fun r => ?_) _
      cases r with
      | read o name => exact ih o name
      | note e => exact note e

section Serving

variable {serve : (r : TableRequest) → Act Store r.Answer} (hserve : ∀ r, Working (serve r))
include hserve

theorem write (o : ObjectRef) (name : String) (v : Value) :
    Working (Store.write serve o name v) := by
  refine (ask _).bind fun q => (assign o name v).bind fun _ => (record _).bind fun _ => ?_
  cases q.1.definition.hooks with
  | none => exact Act.Preserves.pure _
  | some hooks => exact Act.Preserves.run hserve _

omit hserve in
theorem sparing (o : ObjectRef) {hook : Act Store Unit} (hhook : Working hook) :
    Working (Store.sparing o hook) := by
  intro s s' hs
  have hran := hhook s
  simp only [Store.sparing] at hs
  cases hrun : hook s with
  | ok u s₁ =>
    rw [hrun] at hs hran
    exact hran s' hs
  | fault e s₁ =>
    rw [hrun] at hs hran
    cases hs
    exact Trans.trans (hran s₁ rfl) (Store.Worked.single (.deed _))
  | breach b s₁ => simp [hrun, Outcome.state?] at hs
  | exhausted => simp [hrun, Outcome.state?] at hs

theorem delete (o : ObjectRef) : Working (Store.delete serve o) := by
  refine Act.Preserves.get.bind fun s => ?_
  cases s.objects.get? o with
  | none => exact Act.Preserves.pure _
  | some object =>
    refine (record _).bind fun _ => ?_
    cases object.definition.hooks with
    | none => exact (retire o).bind fun _ => record _
    | some hooks =>
      exact (sparing o (Act.Preserves.run hserve _)).bind fun _ => (retire o).bind fun _ => record _

end Serving

theorem allocate (path : String) : Working (Store.allocate path) := by
  have hallocate : Working (Store.onTable fun t => t.allocate path) :=
    onTable fun t q h => .allocate h
  exact (ask _).bind fun _ => hallocate.bind fun _ => (record _).bind fun _ => Act.Preserves.pure _

theorem referenceId (o : ObjectRef) : Working (Store.referenceId o) := by
  have hnumber : Working (Store.onTable fun t => t.referenceId o) :=
    onTable fun t q h => .referenceId h
  exact hnumber.bind fun _ => (record _).bind fun _ => Act.Preserves.pure _

theorem serve (fuel : Nat) (r : TableRequest) : Working (Store.serve fuel r) := by
  induction fuel generalizing r with
  | zero =>
    intro s s' hs
    cases hs
  | succ fuel ih =>
    cases r with
    | read o name => exact read fuel o name
    | write o name v => exact write ih o name v
    | delete o => exact delete ih o
    | allocate path => exact allocate path
    | alive o => exact ask _
    | count => exact .inspect _ _ _
    | referenceId o => exact referenceId o
    | note e => exact note e

end Working

/-! ### The runtime -/

/-- A relation between runtimes that holds when the object table is worked on and when a proc is
entered. -/
structure Carried (R : Runtime → Runtime → Prop) : Prop where
  store : ∀ rt s, rt.store.Worked s → R rt { rt with store := s }
  activate : ∀ rt p id i, R rt (rt.activate p id i).2

namespace Carried

variable {R : Runtime → Runtime → Prop} [Std.Refl R] [Trans R R R] (hR : Carried R)

omit [Trans R R R] in
theorem ask (f : Runtime → Except Fault α) : Act.Preserves R (Runtime.ask f) := by
  intro rt rt' hs
  simp only [Runtime.ask] at hs
  split at hs <;> cases hs <;> exact Std.Refl.refl rt

include hR

omit [Std.Refl R] [Trans R R R] in
theorem onStore {x : Act Store α} (hx : Working x) : Act.Preserves R (Runtime.onStore x) := by
  intro rt rt' hs
  have hnotes := hx rt.store
  simp only [Runtime.onStore] at hs
  cases hrun : x rt.store with
  | ok a s =>
    rw [hrun] at hs hnotes
    cases hs
    exact hR.store rt s (hnotes s rfl)
  | fault e s =>
    rw [hrun] at hs hnotes
    cases hs
    exact hR.store rt s (hnotes s rfl)
  | breach b s => simp [hrun, Outcome.state?] at hs
  | exhausted => simp [hrun, Outcome.state?] at hs

omit [Std.Refl R] [Trans R R R] in
theorem enter (p : ProcRef) (id : ContextId) (i : Invocation) :
    Act.Preserves R (Runtime.enter p id i) := by
  intro rt rt' hs
  cases hs
  exact hR.activate rt p id i

theorem call (a : Activation) (p : ProcRef) (i : Invocation) : Act.Preserves R (a.call p i) :=
  (hR.enter p a.context i).bind fun _ => Act.Preserves.pure _

theorem meet (fuel : Nat) (a : Activation) (d : Demand) : Act.Preserves R (a.meet fuel d) := by
  cases d with
  | proceed => exact Act.Preserves.pure _
  | result v => exact Act.Preserves.pure _
  | read o name => exact (hR.onStore (Working.serve _ _)).bind fun _ => Act.Preserves.pure _
  | write o name v => exact (hR.onStore (Working.serve _ _)).bind fun _ => Act.Preserves.pure _
  | delete o => exact (hR.onStore (Working.serve _ _)).bind fun _ => Act.Preserves.pure _
  | call name args => exact (ask _).bind fun p => hR.call a p _
  | callMethod o name args => exact (ask _).bind fun p => hR.call a p _
  | callSuper args =>
    refine Act.Preserves.get.bind fun rt => ?_
    cases (rt.proc a.proc).overridden with
    | some p => exact hR.call a p _
    | none => exact Act.Preserves.raise _
  | construct path args => exact (hR.onStore (Working.serve _ _)).bind fun o => hR.call a _ _
  | sleep ticks => exact Act.Preserves.pure _
  | finish v => exact Act.Preserves.pure _

variable {drive : Drive} (hcall : ∀ p i, Act.Preserves R (Runtime.callWith drive p i))
include hcall

theorem serve (fuel : Nat) (r : HostRequest) : Act.Preserves R (Runtime.serve fuel drive r) := by
  cases r with
  | table r => exact hR.onStore (Working.serve fuel r)
  | global name => exact ask _
  | method o name => exact ask _
  | method? o name => exact ask _
  | call p i => exact hcall p i
  | construct path arguments usr =>
    exact (hR.onStore (Working.serve _ _)).bind fun _ => (hcall _ _).bind fun _ =>
      Act.Preserves.pure _
  | initializer o => exact ask _
  | created o arguments =>
    refine (ask _).bind fun d => ?_
    cases d.hooks with
    | none => exact Act.Preserves.pure _
    | some hooks =>
      exact (hR.onStore (Act.Preserves.run (Working.serve fuel) _)).bind fun _ =>
        Act.Preserves.pure _

theorem advance (fuel : Nat) (r : Routine) :
    Act.Preserves R (r.advance (Runtime.serve fuel drive)) := by
  induction r with
  | done v => exact Act.Preserves.pure (Pause.finished v)
  | fail e => exact Act.Preserves.raise e
  | ask r next ih =>
    intro rt rt' hs
    cases r with
    | host r =>
      have hserved := hR.serve hcall fuel r rt
      simp only [Routine.advance] at hs
      cases hrun : Runtime.serve fuel drive r rt with
      | ok answer rt₁ =>
        rw [hrun] at hs hserved
        exact Trans.trans (hserved rt₁ rfl) (ih (.ok answer) rt₁ rt' hs)
      | fault e rt₁ =>
        rw [hrun] at hs hserved
        exact Trans.trans (hserved rt₁ rfl) (ih (.error e) rt₁ rt' hs)
      | breach b rt₁ => simp [hrun, Outcome.state?] at hs
      | exhausted => simp [hrun, Outcome.state?] at hs
    | invoke p i =>
      cases hs
      exact Std.Refl.refl rt
    | sleep ticks =>
      cases hs
      exact Std.Refl.refl rt
    | wait =>
      cases hs
      exact Std.Refl.refl rt

/-- Whatever a step of an activation does, it carries the relation along. -/
theorem step (fuel : Nat) (a : Activation) (instr : Option Instr) :
    Act.Preserves R (a.step fuel drive instr) := by
  simp only [Activation.step]
  split
  · simp only [Activation.stepScript]
    split
    · exact (Act.Preserves.lift _).bind fun _ => (Act.Preserves.need _ _).bind fun _ =>
        Act.Preserves.pure _
    · split
      · exact Act.Preserves.pure _
      · exact (Act.Preserves.lift _).bind fun p => hR.meet fuel _ _
  · exact (Act.Preserves.lift _).bind fun i =>
      (Act.Preserves.run (hR.serve hcall fuel) _).bind fun _ => Act.Preserves.pure _
  · refine (Act.Preserves.lift _).bind fun r => (hR.advance hcall fuel r).bind fun pause => ?_
    cases pause with
    | finished v => exact Act.Preserves.pure _
    | invoke p i rest => exact hR.call _ p i
    | sleep ticks rest => exact Act.Preserves.pure _
    | wait rest => exact Act.Preserves.pure _

/-! ### Whole contexts -/

variable (htell : ∀ (rt : Runtime) e, R rt (rt.tell e))

omit hR [Trans R R R] hcall in
include htell in
theorem proceed (c : Context) (top : Activation) (callers : List Activation) (signal : Signal) :
    Act.Preserves R (c.proceed top callers signal) := by
  intro rt rt' hs
  cases signal with
  | proceed =>
    cases hs
    exact Std.Refl.refl rt
  | returned =>
    cases callers <;> cases hs <;> exact Std.Refl.refl rt
  | deferred w =>
    cases hs
    exact Std.Refl.refl rt
  | called callee =>
    simp only [Context.proceed] at hs
    cases hpush : Context.push { c with stack := top :: callers } callee with
    | pushed c' =>
      rw [hpush] at hs
      cases hs
      exact Std.Refl.refl rt
    | overflow why =>
      rw [hpush] at hs
      cases hs
      exact htell rt _
    | foreign b =>
      rw [hpush] at hs
      cases hs

include htell in
theorem contextStep (fuel : Nat) (c : Context) : Act.Preserves R (c.step fuel drive) := by
  intro rt rt' hs
  simp only [Context.step] at hs
  split at hs
  · cases hs
  · rename_i top callers _
    have hstepped := hR.step hcall fuel top.fetch.2 top.fetch.1 rt
    cases hrun : top.fetch.2.step fuel drive top.fetch.1 rt with
    | ok q rt₁ =>
      rw [hrun] at hs hstepped
      exact Trans.trans (hstepped rt₁ rfl) (proceed htell c q.1 callers q.2 rt₁ rt' hs)
    | fault why rt₁ =>
      rw [hrun] at hs hstepped
      cases hs
      exact Trans.trans (hstepped rt₁ rfl) (htell rt₁ _)
    | breach b rt₁ => simp [hrun, Outcome.state?] at hs
    | exhausted => simp [hrun, Outcome.state?] at hs

end Carried

/-- A relation that is carried along by steps and by reports is carried along by whole runs, if it
is by the contexts that are run on the way. -/
theorem Carried.run {R : Runtime → Runtime → Prop} [Std.Refl R] [Trans R R R] (hR : Carried R)
    (htell : ∀ (rt : Runtime) e, R rt (rt.tell e))
    (hcall : ∀ n, (∀ c, Act.Preserves R (Context.run n c)) →
      ∀ p i, Act.Preserves R (Runtime.callWith (Context.run n) p i))
    (n : Nat) (c : Context) : Act.Preserves R (Context.run n c) := by
  induction n generalizing c with
  | zero =>
    intro rt rt' hs
    cases hs
  | succ n ih =>
    intro rt rt' hs
    have hstepped := hR.contextStep (hcall n ih) htell n c rt
    simp only [Context.run] at hs
    cases hstep : c.step n (Context.run n) rt with
    | ok progress rt₁ =>
      rw [hstep] at hs hstepped
      cases progress with
      | running c₁ => exact Trans.trans (hstepped rt₁ rfl) (ih c₁ rt₁ rt' hs)
      | stopped v c₁ =>
        cases hs
        exact hstepped _ rfl
    | fault e rt₁ =>
      rw [hstep] at hs hstepped
      cases hs
      exact hstepped _ rfl
    | breach b rt₁ => simp [hstep, Outcome.state?] at hs
    | exhausted => simp [hstep, Outcome.state?] at hs

end ProcEngine
