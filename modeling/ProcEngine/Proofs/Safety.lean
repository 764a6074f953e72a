import ProcEngine.Proofs.Carried
import ProcEngine.Proofs.Context.Opening
/-!
# Executions that break no rule

What is executed breaks a rule of the host only where an activation is pushed onto a context that it
was not created for, or where a context goes on that has no activation. Work on the object table and
the steps of activations do neither, if the contexts that they run do not. Should they be broken
off, a number has left its range.
-/

namespace ProcEngine

variable {σ α β : Type}

/-- Breaks no rule. -/
def Outcome.Safe (x : Outcome σ α) : Prop := ∀ b s, x = .breach b s → b.isOverflow

namespace Outcome.Safe

theorem ok (a : α) (s : σ) : (Outcome.ok a s).Safe := fun _ _ h => by cases h

theorem fault (e : Fault) (s : σ) : (Outcome.fault e s : Outcome σ α).Safe :=
  fun _ _ h => by cases h

theorem breach {b : Breach} (hb : b.isOverflow) (s : σ) : (Outcome.breach b s : Outcome σ α).Safe :=
  fun _ _ h => by
  cases h
  exact hb

theorem exhausted : (Outcome.exhausted : Outcome σ α).Safe := fun _ _ h => by cases h

/-- What broke off a part of the execution breaks off all of it. -/
theorem broken {x : Outcome σ α} (h : x.Safe) {b : Breach} {s : σ} (hx : x = .breach b s)
    {τ : Type} (t : τ) :
    (Outcome.breach b t : Outcome τ β).Safe := .breach (h b s hx) t

end Outcome.Safe

/-- Breaks no rule, whatever state it finds. -/
def Act.Safe (x : Act σ α) : Prop := ∀ s, (x s).Safe

/-- A sequence is safe if what follows is safe after everything that its first part gives. -/
theorem Act.safe_bind {x : Act σ α} {f : α → Act σ β} {s : σ} {Q : α → σ → Prop} (hx : (x s).Safe)
    (hgives : (x s).Gives Q) (hf : ∀ a s', Q a s' → (f a s').Safe) : ((x >>= f) s).Safe := by
  rw [Act.bind_apply]
  cases hrun : x s with
  | ok a s' => exact hf a s' (hgives.of_ok hrun)
  | fault e s' => exact .fault e s'
  | breach b s' => exact hx.broken hrun _
  | exhausted => exact .exhausted

namespace Act.Safe

theorem pure (a : α) : Act.Safe (Pure.pure a : Act σ α) := fun s => .ok a s

theorem raise (e : Fault) : Act.Safe (Act.raise e : Act σ α) := fun s => .fault e s

theorem get : Act.Safe (Act.get : Act σ σ) := fun s => .ok s s

theorem need (p : Prop) [Decidable p] {b : Breach} (hb : b.isOverflow) :
    Act.Safe (Act.need p b : Act σ Unit) := by
  intro s
  simp only [Act.need]
  split
  · exact .ok _ s
  · exact .breach hb s

theorem lift (x : Except Fault α) : Act.Safe (liftM x : Act σ α) := fun s => by
  cases x with
  | ok a => exact .ok a s
  | error e => exact .fault e s

theorem bind {x : Act σ α} {f : α → Act σ β} (hx : Act.Safe x) (hf : ∀ a, Act.Safe (f a)) :
    Act.Safe (x >>= f) := by
  intro s
  rw [Act.bind_apply]
  cases hrun : x s with
  | ok a s' => exact hf a s'
  | fault e s' => exact .fault e s'
  | breach b s' => exact (hx s).broken hrun _
  | exhausted => exact .exhausted

theorem run {i : Interface} {serve : (r : i.Request) → Act σ (i.Answer r)}
    (h : ∀ r, Act.Safe (serve r)) (p : Program i α) : Act.Safe (p.run serve) := by
  induction p with
  | done a => exact pure a
  | fail e => exact raise e
  | ask r next ih =>
    intro s
    simp only [Program.run]
    cases hrun : serve r s with
    | ok a s' => exact ih (.ok a) s'
    | fault e s' => exact ih (.error e) s'
    | breach b s' => exact (h r s).broken hrun _
    | exhausted => exact .exhausted

end Act.Safe

/-! ### The object table -/

namespace Store

theorem onTable_safe (f : ObjectTable → Except Fault (α × ObjectTable)) : Act.Safe (onTable f) := by
  intro s
  simp only [onTable]
  cases f s.objects with
  | ok q => exact .ok q.1 _
  | error e => exact .fault e s

theorem ask_safe (f : ObjectTable → Except Fault α) : Act.Safe (ask f) := by
  intro s
  simp only [ask]
  cases f s.objects with
  | ok a => exact .ok a s
  | error e => exact .fault e s

theorem record_safe (d : Deed) : Act.Safe (record d) := fun _ => .ok () _

theorem note_safe (e : Event) : Act.Safe (note e) := fun _ => .ok () _

theorem read_safe (fuel : Nat) (o : ObjectRef) (name : String) : Act.Safe (read fuel o name) := by
  induction fuel generalizing o name with
  | zero => exact fun _ => .exhausted
  | succ fuel ih =>
    simp only [read]
    refine (ask_safe _).bind fun q => ?_
    cases q.1.definition.hooks with
    | none => exact .pure _
    | some hooks =>
      refine .run (fun r => ?_) _
      cases r with
      | read o name => exact ih o name
      | note e => exact note_safe e

section Serving

variable {serve : (r : TableRequest) → Act Store r.Answer} (hserve : ∀ r, Act.Safe (serve r))
include hserve

theorem write_safe (o : ObjectRef) (name : String) (v : Value) :
    Act.Safe (write serve o name v) := by
  refine (ask_safe _).bind fun q => (onTable_safe _).bind fun _ => (record_safe _).bind fun _ => ?_
  cases q.1.definition.hooks with
  | none => exact .pure _
  | some hooks => exact .run hserve _

omit hserve in
theorem sparing_safe (o : ObjectRef) {hook : Act Store Unit} (hhook : Act.Safe hook) :
    Act.Safe (sparing o hook) := by
  intro s
  simp only [sparing]
  cases hrun : hook s with
  | ok u s' => exact .ok u s'
  | fault e s' => exact .fault e _
  | breach b s' => exact (hhook s).broken hrun _
  | exhausted => exact .exhausted

theorem delete_safe (o : ObjectRef) : Act.Safe (delete serve o) := by
  refine Act.Safe.get.bind fun s => ?_
  cases s.objects.get? o with
  | none => exact .pure _
  | some object =>
    refine (record_safe _).bind fun _ => ?_
    cases object.definition.hooks with
    | none => exact (onTable_safe _).bind fun _ => record_safe _
    | some hooks =>
      exact (sparing_safe o (.run hserve _)).bind fun _ => (onTable_safe _).bind fun _ =>
        record_safe _

end Serving

theorem allocate_safe (path : String) : Act.Safe (allocate path) :=
  (ask_safe _).bind fun _ => (onTable_safe _).bind fun _ => (record_safe _).bind fun _ => .pure _

theorem referenceId_safe (o : ObjectRef) : Act.Safe (referenceId o) :=
  (onTable_safe _).bind fun _ => (record_safe _).bind fun _ => .pure _

/-- Work on the object table breaks no rule, by whatever hooks. -/
theorem serve_safe (fuel : Nat) (r : TableRequest) : Act.Safe (serve fuel r) := by
  induction fuel generalizing r with
  | zero => exact fun _ => .exhausted
  | succ fuel ih =>
    cases r with
    | read o name => exact read_safe fuel o name
    | write o name v => exact write_safe ih o name v
    | delete o => exact delete_safe ih o
    | allocate path => exact allocate_safe path
    | alive o => exact ask_safe _
    | count => exact Act.Safe.get.bind fun _ => (Act.Safe.need _ rfl).bind fun _ => .pure _
    | referenceId o => exact referenceId_safe o
    | note e => exact note_safe e

end Store

/-! ### The steps of activations -/

namespace Runtime

theorem onStore_safe {x : Act Store α} (hx : Act.Safe x) : Act.Safe (onStore x) := by
  intro rt
  simp only [onStore]
  cases hrun : x rt.store with
  | ok a s => exact .ok a _
  | fault e s => exact .fault e _
  | breach b s => exact (hx rt.store).broken hrun _
  | exhausted => exact .exhausted

theorem ask_safe (f : Runtime → Except Fault α) : Act.Safe (ask f) := by
  intro rt
  simp only [ask]
  cases f rt with
  | ok a => exact .ok a rt
  | error e => exact .fault e rt

/-- A call by host code is safe if the context that it opens is driven safely. -/
theorem callWith_safe {drive : Drive}
    (hdrive : ∀ (rt : Runtime) p i, rt.maxDepth ≠ 0 →
      (drive (rt.opened p i).1 (rt.opened p i).2).Safe) (p : ProcRef)
    (i : Invocation) : Act.Safe (callWith drive p i) := by
  intro rt
  rw [callWith_eq]
  by_cases hdepth : rt.maxDepth = 0
  · rw [if_pos hdepth]
    exact .ok _ _
  · rw [if_neg hdepth]
    cases hrun : drive (rt.opened p i).1 (rt.opened p i).2 with
    | ok q rt' => exact .ok _ _
    | fault e rt' => exact .fault e rt'
    | breach b rt' => exact (hdrive rt p i hdepth).broken hrun _
    | exhausted => exact .exhausted

end Runtime

variable {drive : Drive} (hcall : ∀ p i, Act.Safe (Runtime.callWith drive p i))

include hcall in
theorem Runtime.constructWith_safe (fuel : Nat) (path : String) (arguments : Arguments)
    (usr : Option ObjectRef) :
    Act.Safe (constructWith fuel drive path arguments usr) :=
  (onStore_safe (Store.serve_safe fuel _)).bind fun _ => (hcall _ _).bind fun _ => .pure _

include hcall in
theorem Runtime.serve_safe (fuel : Nat) (r : HostRequest) : Act.Safe (serve fuel drive r) := by
  cases r with
  | table r => exact onStore_safe (Store.serve_safe fuel r)
  | global name => exact ask_safe _
  | method o name => exact ask_safe _
  | method? o name => exact ask_safe _
  | call p i => exact hcall p i
  | construct path arguments usr => exact constructWith_safe hcall fuel path arguments usr
  | initializer o => exact ask_safe _
  | created o arguments =>
    refine (ask_safe _).bind fun d => ?_
    cases d.hooks with
    | none => exact .pure _
    | some hooks => exact (onStore_safe (.run (Store.serve_safe fuel) _)).bind fun _ => .pure _

theorem Routine.advance_safe {serve : Serve} (hserve : ∀ r, Act.Safe (serve r)) (r : Routine) :
    Act.Safe (r.advance serve) := by
  induction r with
  | done v => exact fun rt => .ok _ rt
  | fail e => exact fun rt => .fault e rt
  | ask r next ih =>
    intro rt
    cases r with
    | host r =>
      simp only [Routine.advance]
      cases hrun : serve r rt with
      | ok answer rt' => exact ih (.ok answer) rt'
      | fault e rt' => exact ih (.error e) rt'
      | breach b rt' => exact (hserve r rt).broken hrun _
      | exhausted => exact .exhausted
    | invoke p i => exact .ok _ rt
    | sleep ticks => exact .ok _ rt
    | wait => exact .ok _ rt

namespace Activation

theorem call_safe (a : Activation) (p : ProcRef) (i : Invocation) : Act.Safe (a.call p i) :=
  fun _ => .ok _ _

theorem meet_safe (fuel : Nat) (a : Activation) (d : Demand) : Act.Safe (a.meet fuel d) := by
  cases d with
  | proceed => exact .pure _
  | result v => exact .pure _
  | read o name => exact (Runtime.onStore_safe (Store.serve_safe _ _)).bind fun _ => .pure _
  | write o name v => exact (Runtime.onStore_safe (Store.serve_safe _ _)).bind fun _ => .pure _
  | delete o => exact (Runtime.onStore_safe (Store.serve_safe _ _)).bind fun _ => .pure _
  | call name args => exact (Runtime.ask_safe _).bind fun p => a.call_safe p _
  | callMethod o name args => exact (Runtime.ask_safe _).bind fun p => a.call_safe p _
  | callSuper args =>
    refine Act.Safe.get.bind fun rt => ?_
    cases (rt.proc a.proc).overridden with
    | some p => exact a.call_safe p _
    | none => exact .raise _
  | construct path args =>
    exact (Runtime.onStore_safe (Store.serve_safe _ _)).bind fun o => a.call_safe _ _
  | sleep ticks => exact .pure _
  | finish v => exact .pure _

include hcall in
/-- No step of an activation breaks a rule, if no context does that host code runs in it. -/
theorem step_safe (fuel : Nat) (a : Activation) (instr : Option Instr) :
    Act.Safe (a.step fuel drive instr) := by
  have hserve := Runtime.serve_safe hcall fuel
  simp only [step]
  cases a.frame with
  | script f =>
    simp only [stepScript]
    cases f.locals with
    | none =>
      exact (Act.Safe.lift _).bind fun values =>
        (Act.Safe.need _ (f.shortage_isOverflow values)).bind fun _ => .pure _
    | some slots =>
      cases instr with
      | none => exact .pure _
      | some i => exact (Act.Safe.lift _).bind fun q => meet_safe fuel _ q.1
  | handler run =>
    exact (Act.Safe.lift _).bind fun i => (Act.Safe.run hserve _).bind fun _ => .pure _
  | routine f =>
    refine (Act.Safe.lift _).bind fun r => (Routine.advance_safe hserve r).bind fun pause => ?_
    cases pause with
    | finished v => exact .pure _
    | invoke p i rest => exact call_safe _ p i
    | sleep ticks rest => exact .pure _
    | wait rest => exact .pure _

end Activation

end ProcEngine
