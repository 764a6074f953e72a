import ProcEngine.Proofs.Object.Definitions
import ProcEngine.Proofs.Object.Faithful
/-!
# Hooks that do not blame the code

A hook may fail with whatever fault it likes, and what it fails with is what the script fails with
that has read, assigned or deleted. A hook is blameless if it never claims by itself that code is
malformed. While the hooks of all types are, so is everything that is asked of the object table.
-/

namespace ProcEngine

def Fault.isMalformed : Fault → Bool
  | .malformedCode _ => true
  | _ => false

/-- Fails with a fault of malformed code only if it has been handed one. -/
def Program.Blameless {i : Interface} {α : Type} : Program i α → Prop
  | done _ => True
  | fail e => e.isMalformed = false
  | ask _ next =>
    ∀ answer, (∀ e, answer = .error e → e.isMalformed = false) → (next answer).Blameless

structure Hooks.Blameless (hooks : Hooks) : Prop where
  read : ∀ o name v, (hooks.read o name v).Blameless
  written : ∀ o name v old, (hooks.written o name v old).Blameless
  deleted : ∀ o, (hooks.deleted o).Blameless

def Definition.Blameless (d : Definition) : Prop := ∀ hooks ∈ d.hooks, hooks.Blameless

/-- Of the types that there are, and of the objects, whose types need not be registered any more. -/
structure ObjectTable.Blameless (t : ObjectTable) : Prop where
  types : ∀ (path : String) (d : Definition), t.types[path]? = some d → d.Blameless
  objects : ∀ slot ∈ t.slots, ∀ object ∈ slot.object, object.definition.Blameless

namespace ObjectTable

variable {t : ObjectTable}

theorem stored_error {o : ObjectRef} {name : String} {e : Fault} (h : t.stored o name = .error e) :
    e.isMalformed = false := by
  simp only [stored, get, Bind.bind, Except.bind] at h
  split at h
  · rename_i hget
    split at hget <;> cases hget
    cases h
    rfl
  · split at h <;> cases h
    rfl

theorem type_error {path : String} {e : Fault} (h : t.type path = .error e) :
    e.isMalformed = false := by
  simp only [type] at h
  split at h <;> cases h
  rfl

theorem referenceId_error {o : ObjectRef} {e : Fault} (h : t.referenceId o = .error e) :
    e.isMalformed = false := by
  simp only [referenceId, get, Bind.bind, Except.bind] at h
  split at h
  · rename_i hget
    split at hget <;> cases hget
    cases h
    rfl
  · split at h <;> cases h

theorem Blameless.empty : ObjectTable.Blameless {} where
  types path d h := by simp at h
  objects slot h := by simp at h

theorem Blameless.of_defines (h : t.Blameless) {d : Definition} (hd : t.Defines d) :
    d.Blameless := by
  cases hd with
  | registered hd => exact h.types _ d hd
  | inhabited hslot hobject hd => exact hd ▸ h.objects _ hslot _ hobject

end ObjectTable

/-! ### The store -/

theorem ObjectTable.Evolves.blameless {t t' : ObjectTable} (h : t.Evolves t')
    (hblameless : t.Blameless) :
    t'.Blameless where
  types _ _ hd := hblameless.of_defines (h.defines (.registered hd))
  objects _ hslot _ hobject := hblameless.of_defines (h.defines (.inhabited hslot hobject rfl))

/-- Does not fail for malformed code while hooks are blameless. -/
def Innocent {α : Type} (x : Act Store α) : Prop :=
  ∀ s s' e, s.objects.Blameless → x s = .fault e s' → e.isMalformed = false

namespace Innocent

variable {α β : Type}

theorem pure (a : α) : Innocent (Pure.pure a : Act Store α) := by
  intro s s' e _ h
  cases h

theorem bind {x : Act Store α} {f : α → Act Store β} (hx : Innocent x) (hworking : Working x)
    (hf : ∀ a, Innocent (f a)) : Innocent (x >>= f) := by
  intro s s' e hblameless h
  obtain h | ⟨a, s₁, hrun, h⟩ := Act.fault_of_bind h
  · exact hx s s' e hblameless h
  · have hworked : s.Worked s₁ := hworking s s₁ (by rw [hrun]; rfl)
    exact hf a s₁ s' e (hworked.evolves.blameless hblameless) h

theorem run {i : Interface} {serve : (r : i.Request) → Act Store (i.Answer r)}
    (hserve : ∀ r, Innocent (serve r))
    (hworking : ∀ r, Working (serve r)) {p : Program i α} (hp : p.Blameless) :
    Innocent (p.run serve) := by
  induction p with
  | done a => exact pure a
  | fail why =>
    intro s s' e _ h
    cases h
    exact hp
  | ask r next ih =>
    intro s s' e hblameless h
    simp only [Program.run] at h
    cases hrun : serve r s with
    | ok a s₁ =>
      rw [hrun] at h
      have hworked : s.Worked s₁ := hworking r s s₁ (by rw [hrun]; rfl)
      exact ih (.ok a) (hp (.ok a) (by simp)) s₁ s' e (hworked.evolves.blameless hblameless) h
    | fault why s₁ =>
      rw [hrun] at h
      have hworked : s.Worked s₁ := hworking r s s₁ (by rw [hrun]; rfl)
      refine ih (.error why) (hp (.error why) ?_) s₁ s' e (hworked.evolves.blameless hblameless) h
      intro why' heq
      cases heq
      exact hserve r s s₁ why hblameless hrun
    | breach b s₁ =>
      rw [hrun] at h
      cases h
    | exhausted =>
      rw [hrun] at h
      cases h

theorem note (e : Event) : Innocent (Store.note e) := by
  intro s s' e _ h
  cases h

theorem record (d : Deed) : Innocent (Store.record d) := by
  intro s s' e _ h
  cases h

theorem ask {f : ObjectTable → Except Fault α}
    (hf : ∀ t e, f t = .error e → e.isMalformed = false) :
    Innocent (Store.ask f) := by
  intro s s' e _ h
  simp only [Store.ask] at h
  split at h <;> cases h
  exact hf _ _ ‹_›

theorem onTable {f : ObjectTable → Except Fault (α × ObjectTable)}
    (hf : ∀ t e, f t = .error e → e.isMalformed = false) : Innocent (Store.onTable f) := by
  intro s s' e _ h
  simp only [Store.onTable] at h
  split at h <;> cases h
  exact hf _ _ ‹_›

/-- What goes on with a stored variable is the affair of the hooks of its object. -/
theorem stored (o : ObjectRef) (name : String) {f : Object × Value → Act Store α}
    (hf : ∀ q, q.1.definition.Blameless → Innocent (f q)) :
    Innocent (Store.ask (fun t => t.stored o name) >>= f) := by
  intro s s' e hblameless h
  rw [Act.bind_apply, Store.ask] at h
  cases hstored : s.objects.stored o name with
  | ok q =>
    rw [hstored] at h
    exact hf q (hblameless.of_defines (.of_stored hstored)) s s' e hblameless h
  | error why =>
    rw [hstored] at h
    cases h
    exact ObjectTable.stored_error hstored

theorem read (fuel : Nat) (o : ObjectRef) (name : String) : Innocent (Store.read fuel o name) := by
  induction fuel generalizing o name with
  | zero =>
    intro s s' e _ h
    cases h
  | succ fuel ih =>
    refine stored o name fun ⟨object, v⟩ hobject => ?_
    dsimp only at hobject ⊢
    cases hhooks : object.definition.hooks with
    | none => exact pure v
    | some hooks =>
      refine run (fun r => ?_) (fun r => ?_) ((hobject hooks hhooks).read o name v)
      · cases r with
        | read o name => exact ih o name
        | note e => exact note e
      · cases r with
        | read o name => exact Working.read fuel o name
        | note e => exact Working.note e

section Serving

variable {serve : (r : TableRequest) → Act Store r.Answer} (hserve : ∀ r, Innocent (serve r))
  (hworking : ∀ r, Working (serve r))
include hserve hworking

theorem write (o : ObjectRef) (name : String) (v : Value) :
    Innocent (Store.write serve o name v) := by
  refine stored o name fun q hq => ?_
  have hassign : Innocent (Store.onTable fun t => .ok ((), t.assign o name v)) :=
    onTable fun t e h => by cases h
  refine hassign.bind (Working.assign o name v) fun _ =>
    (record _).bind (Working.record _) fun _ => ?_
  cases hhooks : q.1.definition.hooks with
  | none => exact pure ()
  | some hooks => exact run hserve hworking ((hq hooks hhooks).written o name v q.2)

omit hserve hworking in
theorem sparing (o : ObjectRef) {hook : Act Store Unit} (hhook : Innocent hook) :
    Innocent (Store.sparing o hook) := by
  intro s s' e hblameless h
  simp only [Store.sparing] at h
  split at h
  · rename_i hrun
    cases h
    exact hhook s _ e hblameless hrun
  · rename_i hrun
    exact absurd h (hrun e s')

theorem delete (o : ObjectRef) : Innocent (Store.delete serve o) := by
  intro s s' e hblameless h
  rw [Store.delete, Act.bind_apply, Act.get_apply] at h
  dsimp only at h
  have hretire :
      Innocent (do Store.onTable fun t => .ok ((), t.retire o); Store.record (.destroyed o)) :=
    (onTable fun t e h => by cases h).bind (Working.retire o) fun _ => record _
  cases hobject : s.objects.get? o with
  | none =>
    rw [hobject] at h
    cases h
  | some object =>
    rw [hobject] at h
    refine (record (.condemned o)).bind (Working.record _) (fun _ => ?_) s s' e hblameless h
    cases hhooks : object.definition.hooks with
    | none => exact hretire
    | some hooks =>
      have hdeleted := (hblameless.of_defines (.of_get? hobject) hooks hhooks).deleted o
      have hworked : Working (Store.sparing o ((hooks.deleted o).run serve)) :=
        Working.sparing o (Act.Preserves.run hworking _)
      exact (sparing o (run hserve hworking hdeleted)).bind hworked fun _ => hretire

end Serving

theorem allocate (path : String) : Innocent (Store.allocate path) := by
  have hallocate : Innocent (Store.onTable fun t => t.allocate path) := onTable fun t e h => by
    simp only [ObjectTable.allocate] at h
    cases htype : t.type path with
    | error why =>
      rw [htype] at h
      cases h
      exact ObjectTable.type_error htype
    | ok d =>
      rw [htype] at h
      cases h
  refine (ask fun t e h => ObjectTable.type_error h).bind (Working.ask _) fun d => ?_
  exact hallocate.bind (Working.onTable fun t q h => .allocate h) fun o =>
    (record _).bind (Working.record _) fun _ => pure o

theorem referenceId (o : ObjectRef) : Innocent (Store.referenceId o) := by
  have hnumber : Innocent (Store.onTable fun t => t.referenceId o) := onTable fun t e h =>
    ObjectTable.referenceId_error h
  exact hnumber.bind (Working.onTable fun t q h => .referenceId h) fun id =>
    (record _).bind (Working.record _) fun _ => pure id

/-- While hooks are blameless nothing that is asked of the object table fails for malformed code. -/
theorem serve (fuel : Nat) (r : TableRequest) : Innocent (Store.serve fuel r) := by
  induction fuel generalizing r with
  | zero =>
    intro s s' e _ h
    cases h
  | succ fuel ih =>
    cases r with
    | read o name => exact read fuel o name
    | write o name v => exact write ih (Working.serve fuel) o name v
    | delete o => exact delete ih (Working.serve fuel) o
    | allocate path => exact allocate path
    | alive o => exact ask fun t e h => by cases h
    | count =>
      intro s s' e _ h
      rw [Store.serve, Store.count_eq] at h
      split at h <;> cases h
    | referenceId o => exact referenceId o
    | note e => exact note e

end Innocent

end ProcEngine
