import Mathlib.Logic.Relation
import ProcEngine.Proofs.Object.Deletion
/-!
# The turns that a store takes

Whatever is asked of a store, and whatever its hooks ask meanwhile, comes down to a few things that
are done to it one after the other. The stores between two turns are all that anyone comes to see, a
hook while it runs included, so what every turn keeps is known of all of them.
-/

namespace ProcEngine

open History

namespace Store

def assigning (s : Store) (o : ObjectRef) (name : String) (v : Value) : Store :=
  { s with objects := s.objects.assign o name v, deeds := .assigned o name v :: s.deeds }

def pardoning (s : Store) (o : ObjectRef) : Store := { s with deeds := .spared o :: s.deeds }

def retiring (s : Store) (o : ObjectRef) : Store :=
  { s with objects := s.objects.retire o, deeds := .destroyed o :: s.deeds }

/-- One thing that is done to a store. A deletion takes two turns, with those of its hook in
between. -/
inductive Turn (s : Store) : Store → Prop
  | registered (d : Definition) : Turn s { s with objects := s.objects.register d }
  | noted (e : Event) : Turn s { s with journal := s.journal.push e }
  | allocated {path : String} {o : ObjectRef} {s' : Store} : allocate path s = .ok o s' → Turn s s'
  /-- The hook that is told of it runs afterwards. -/
  | assigned {o : ObjectRef} {name : String} {q : Object × Value} (v : Value) :
    s.objects.stored o name = .ok q → Turn s (s.assigning o name v)
  | numbered {o : ObjectRef} {id : UInt32} {s' : Store} : referenceId o s = .ok id s' → Turn s s'
  | condemned {o : ObjectRef} : s.objects.isAlive o → Turn s (s.condemning o)
  | spared {o : ObjectRef} : o ∈ dying s.deeds → Turn s (s.pardoning o)
  | destroyed {o : ObjectRef} : o ∈ dying s.deeds → Turn s (s.retiring o)

/-- One store comes of another by turns. -/
def Passes : Store → Store → Prop := Relation.ReflTransGen Turn

instance : Trans Passes Passes Passes := ⟨Relation.ReflTransGen.trans⟩

/-- What serving a request comes to: turns, after which the same deletions are under way as
before. -/
structure Served (s s' : Store) : Prop where
  passes : s.Passes s'
  dying : dying s'.deeds = dying s.deeds

namespace Served

variable {s s' : Store}

theorem refl (s : Store) : Served s s := ⟨.refl, rfl⟩

theorem trans {s'' : Store} (h : Served s s') (h' : Served s' s'') : Served s s'' :=
  ⟨Relation.ReflTransGen.trans h.passes h'.passes, h'.dying.trans h.dying⟩

theorem turn (h : s.Turn s') (hdying : History.dying s'.deeds = History.dying s.deeds) :
    Served s s' :=
  ⟨.single h, hdying⟩

instance : Std.Refl Served := ⟨refl⟩

instance : Trans Served Served Served := ⟨trans⟩

end Served

abbrev Serving {α : Type} (x : Act Store α) : Prop := Act.Preserves Served x

/-! ### The operations, in one equation each -/

variable {s : Store}

theorem allocate_eq (path : String) (s : Store) :
    allocate path s = match s.objects.types[path]? with
      | none => .fault (.unknownType path) s
      | some d => .ok (s.objects.allocateOf d).1
          { s with
            objects := (s.objects.allocateOf d).2
            deeds := .made (s.objects.allocateOf d).1 d :: s.deeds } := by
  simp only [allocate, ask, ObjectTable.type, Act.bind_apply, onTable, ObjectTable.allocate]
  cases hd : s.objects.types[path]? with
  | none => rfl
  | some d =>
    simp only [hd]
    rfl

theorem referenceId_eq (o : ObjectRef) (s : Store) :
    referenceId o s = match s.objects.referenceId o with
      | .error e => .fault e s
      | .ok (id, t) => .ok id { s with objects := t, deeds := .numbered o :: s.deeds } := by
  simp only [referenceId, Act.bind_apply, onTable]
  cases s.objects.referenceId o <;> rfl

/-- The hook that is told of an assignment, if the type has any. -/
def telling {σ : Type} (serve : (r : TableRequest) → Act σ r.Answer) (d : Definition)
    (o : ObjectRef) (name : String) (v old : Value) : Act σ Unit :=
  match d.hooks with
  | none => return ()
  | some hooks => (hooks.written o name v old).run serve

theorem write_eq (serve : (r : TableRequest) → Act Store r.Answer) (o : ObjectRef)
    (name : String) (v : Value) (s : Store) :
    write serve o name v s = match s.objects.stored o name with
      | .error e => .fault e s
      | .ok (object, old) =>
        telling serve object.definition o name v old (s.assigning o name v) := by
  simp only [write, Act.bind_apply, ask]
  cases s.objects.stored o name with
  | error e => rfl
  | ok q => rfl

end Store

/-! ### From turns to whatever is served -/

namespace Act.Preserves

variable {R : Store → Store → Prop} [Std.Refl R]

theorem ask {α : Type} (f : ObjectTable → Except Fault α) : Act.Preserves R (Store.ask f) := by
  intro s s' hs
  simp only [Store.ask] at hs
  split at hs <;> cases hs <;> exact Std.Refl.refl s

variable [Trans R R R]

/-- A hook that is run on reading can read further and leave notes. -/
theorem read (hnote : ∀ e, Act.Preserves R (Store.note e)) (fuel : Nat) (o : ObjectRef)
    (name : String) :
    Act.Preserves R (Store.read fuel o name) := by
  induction fuel generalizing o name with
  | zero =>
    intro s s' hs
    cases hs
  | succ fuel ih =>
    simp only [Store.read]
    refine (ask _).bind fun q => ?_
    cases q.1.definition.hooks with
    | none => exact pure _
    | some hooks =>
      refine run (fun r => ?_) _
      cases r with
      | read o name => exact ih o name
      | note e => exact hnote e

variable {serve : (r : TableRequest) → Act Store r.Answer} (hserve : ∀ r, Act.Preserves R (serve r))
include hserve

theorem telling (d : Definition) (o : ObjectRef) (name : String) (v old : Value) :
    Act.Preserves R (Store.telling serve d o name v old) := by
  simp only [Store.telling]
  cases d.hooks with
  | none => exact pure ()
  | some hooks => exact run hserve _

theorem deletion (d : Definition) (o : ObjectRef) :
    Act.Preserves R (ProcEngine.deletion serve d o) := by
  simp only [ProcEngine.deletion]
  cases d.hooks with
  | none => exact pure ()
  | some hooks => exact run hserve _

end Act.Preserves

namespace Store

/-- Holds across a turn that neither begins nor ends a deletion, and across a deletion if it does
across its hook. -/
structure Bridges (R : Store → Store → Prop) : Prop where
  turn : ∀ {s s' : Store}, s.Turn s' → dying s'.deeds = dying s.deeds → R s s'
  spared : ∀ {s s₁ : Store} {o : ObjectRef}, s.objects.isAlive o → R (s.condemning o) s₁ →
    R s (s₁.pardoning o)
  destroyed : ∀ {s s₁ : Store} {o : ObjectRef}, s.objects.isAlive o → R (s.condemning o) s₁ →
    R s (s₁.retiring o)

namespace Bridges

variable {R : Store → Store → Prop} [Std.Refl R] [Trans R R R] (hR : Bridges R)
include hR

omit [Trans R R R] in
theorem note (e : Event) : Act.Preserves R (Store.note e) := by
  intro s s' hs
  cases hs
  split
  · exact Std.Refl.refl s
  · exact hR.turn (.noted e) rfl

omit [Trans R R R] in
theorem allocate (path : String) : Act.Preserves R (Store.allocate path) := by
  intro s s' hs
  cases hrun : Store.allocate path s with
  | ok o s₁ =>
    rw [hrun] at hs
    cases hs
    refine hR.turn (.allocated hrun) ?_
    rw [allocate_eq] at hrun
    split at hrun <;> cases hrun
    rfl
  | fault e s₁ =>
    rw [hrun] at hs
    cases hs
    rw [allocate_eq] at hrun
    split at hrun <;> cases hrun
    exact Std.Refl.refl s
  | breach b s₁ => simp [hrun, Outcome.state?] at hs
  | exhausted => simp [hrun, Outcome.state?] at hs

omit [Trans R R R] in
theorem referenceId (o : ObjectRef) : Act.Preserves R (Store.referenceId o) := by
  intro s s' hs
  cases hrun : Store.referenceId o s with
  | ok id s₁ =>
    rw [hrun] at hs
    cases hs
    refine hR.turn (.numbered hrun) ?_
    rw [referenceId_eq] at hrun
    split at hrun <;> cases hrun
    rfl
  | fault e s₁ =>
    rw [hrun] at hs
    cases hs
    rw [referenceId_eq] at hrun
    split at hrun <;> cases hrun
    exact Std.Refl.refl s
  | breach b s₁ => simp [hrun, Outcome.state?] at hs
  | exhausted => simp [hrun, Outcome.state?] at hs

section Hooks

variable {serve : (r : TableRequest) → Act Store r.Answer} (hserve : ∀ r, Act.Preserves R (serve r))
include hserve

theorem write (o : ObjectRef) (name : String) (v : Value) :
    Act.Preserves R (Store.write serve o name v) := by
  intro s s' hs
  rw [write_eq] at hs
  split at hs
  · cases hs
    exact Std.Refl.refl s
  · rename_i object old hstored
    have hassigned : R s (s.assigning o name v) := hR.turn (.assigned v hstored) rfl
    exact Trans.trans hassigned
      (Act.Preserves.telling hserve object.definition o name v old _ s' hs)

theorem delete (o : ObjectRef) : Act.Preserves R (Store.delete serve o) := by
  intro s s' hs
  rw [Store.delete_eq] at hs
  cases hget : s.objects.get? o with
  | none =>
    rw [hget] at hs
    cases hs
    exact Std.Refl.refl s
  | some object =>
    simp only [hget] at hs
    have halive : s.objects.isAlive o := by rw [ObjectTable.isAlive, hget]; rfl
    have hhook := Act.Preserves.deletion hserve object.definition o (s.condemning o)
    cases hrun : ProcEngine.deletion serve object.definition o
        { s with deeds := .condemned o :: s.deeds } with
    | ok u s₁ =>
      rw [hrun] at hs
      cases hs
      exact hR.destroyed halive (hhook s₁ (by rw [condemning, hrun]; rfl))
    | fault e s₁ =>
      rw [hrun] at hs
      cases hs
      exact hR.spared halive (hhook s₁ (by rw [condemning, hrun]; rfl))
    | breach b s₁ => simp [hrun, Outcome.state?] at hs
    | exhausted => simp [hrun, Outcome.state?] at hs

end Hooks

/-- What bridges turns and deletions bridges whatever is asked of a store. -/
theorem serve (fuel : Nat) (r : TableRequest) : Act.Preserves R (Store.serve fuel r) := by
  induction fuel generalizing r with
  | zero =>
    intro s s' hs
    cases hs
  | succ fuel ih =>
    cases r with
    | read o name => exact .read hR.note fuel o name
    | write o name v => exact hR.write ih o name v
    | delete o => exact hR.delete ih o
    | allocate path => exact hR.allocate path
    | alive o => exact .ask _
    | count => exact .inspect _ _ _
    | referenceId o => exact hR.referenceId o
    | note e => exact hR.note e

end Bridges

theorem Served.bridges : Bridges Served where
  turn := .turn
  spared {s s₁ o} halive h := by
    have hdying : History.dying s₁.deeds = o :: History.dying s.deeds := h.dying
    refine ⟨.trans (.head (.condemned halive) h.passes) (.single (.spared ?_)), ?_⟩
    · rw [hdying]
      exact List.mem_cons_self
    · show (History.dying s₁.deeds).erase o = History.dying s.deeds
      rw [hdying, List.erase_cons_head]
  destroyed {s s₁ o} halive h := by
    have hdying : History.dying s₁.deeds = o :: History.dying s.deeds := h.dying
    refine ⟨.trans (.head (.condemned halive) h.passes) (.single (.destroyed ?_)), ?_⟩
    · rw [hdying]
      exact List.mem_cons_self
    · show (History.dying s₁.deeds).erase o = History.dying s.deeds
      rw [hdying, List.erase_cons_head]

theorem Serving.serve (fuel : Nat) (r : TableRequest) : Serving (Store.serve fuel r) :=
  Served.bridges.serve fuel r

end Store

end ProcEngine
