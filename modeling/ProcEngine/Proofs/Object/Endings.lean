import ProcEngine.Proofs.Fuel
import ProcEngine.Proofs.Object.Definitions
import ProcEngine.Proofs.Object.Turns
/-!
# Hooks that come to an end

What is asked of a store can go on forever only in a hook, which may read, assign and delete what
has hooks again. While the hooks of all definitions that a table knows come to an end, so does
whatever is asked of the store. To count the objects is left out here: that breaks off on a table
that has more free slots than slots.
-/

namespace ProcEngine

/-- Comes to an end, with a value or a fault, unless `P` holds: then a number may leave its range,
which breaks it off. -/
def Outcome.EndsUnless {σ α : Type} (P : Prop) : Outcome σ α → Prop
  | ok .. | fault .. => True
  | breach b _ => P ∧ b.isOverflow
  | exhausted => False

abbrev Outcome.Ends {σ α : Type} (x : Outcome σ α) : Prop := x.EndsUnless False

theorem Outcome.Ends.endsUnless {σ α : Type} {x : Outcome σ α} (h : x.Ends) (P : Prop) :
    x.EndsUnless P := by
  cases x with
  | ok a s | fault e s => trivial
  | breach b s => exact h.1.elim
  | exhausted => exact h

theorem Outcome.EndsUnless.ne_exhausted {σ α : Type} {P : Prop} {x : Outcome σ α}
    (h : x.EndsUnless P) :
    x ≠ .exhausted := by
  rintro rfl
  exact h

theorem Act.bind_ends {σ α β : Type} {P : Prop} {x : Act σ α} {f : α → Act σ β} {s : σ}
    (hx : (x s).EndsUnless P)
    (hf : ∀ a s', (f a s').EndsUnless P) : ((x >>= f) s).EndsUnless P := by
  rw [Act.bind_apply]
  cases hrun : x s with
  | ok a s' => exact hf a s'
  | fault e s' => trivial
  | breach b s' | exhausted =>
    rw [hrun] at hx
    exact hx

/-- Whatever they are run for in this store, the hooks come to an end, given fuel enough. -/
structure Hooks.EndIn (hooks : Hooks) (s : Store) : Prop where
  created : ∀ o arguments, ∃ n, ((hooks.created o arguments).run (Store.serve n) s).Ends
  read : ∀ o name v, ∃ n, ((hooks.read o name v).run (Store.serveRead (Store.read n)) s).Ends
  written : ∀ o name v old, ∃ n, ((hooks.written o name v old).run (Store.serve n) s).Ends
  deleted : ∀ o, ∃ n, ((hooks.deleted o).run (Store.serve n) s).Ends

/-- All hooks come to an end, whatever has been done to the objects of the table until then. -/
def ObjectTable.HooksEnd (t : ObjectTable) : Prop :=
  ∀ d, t.Defines d → ∀ hooks ∈ d.hooks, ∀ s : Store, t.Evolves s.objects → hooks.EndIn s

namespace ObjectTable.HooksEnd

variable {t : ObjectTable} {s : Store} {d : Definition} (h : t.HooksEnd) (hs : t.Evolves s.objects)
include h hs

theorem endIn (hd : s.objects.Defines d) {hooks : Hooks} (hhooks : d.hooks = some hooks) :
    hooks.EndIn s :=
  h d (hs.defines hd) hooks hhooks s hs

theorem read (o : ObjectRef) (name : String) : ∃ n, (Store.read n o name s).Ends := by
  cases hstored : s.objects.stored o name with
  | error e =>
    refine ⟨1, ?_⟩
    simp only [Store.read, Act.bind_apply, Store.ask, hstored]
    trivial
  | ok q =>
    cases hhooks : q.1.definition.hooks with
    | none =>
      refine ⟨1, ?_⟩
      simp only [Store.read, Act.bind_apply, Store.ask, hstored, hhooks]
      trivial
    | some hooks =>
      obtain ⟨n, hn⟩ := (h.endIn hs (.of_stored hstored) hhooks).read o name q.2
      refine ⟨n + 1, ?_⟩
      simp only [Store.read, Act.bind_apply, Store.ask, hstored, hhooks]
      exact hn

theorem write (o : ObjectRef) (name : String) (v : Value) :
    ∃ n, (Store.write (Store.serve n) o name v s).Ends := by
  simp only [Store.write_eq]
  cases hstored : s.objects.stored o name with
  | error e => exact ⟨0, trivial⟩
  | ok q =>
    have hassigned : t.Evolves (s.assigning o name v).objects := hs.tail (.assign o name v)
    have hd := hs.defines (.of_stored hstored)
    simp only [Store.telling]
    cases hhooks : q.1.definition.hooks with
    | none => exact ⟨0, trivial⟩
    | some hooks => exact (h _ hd hooks hhooks _ hassigned).written o name v q.2

theorem delete (o : ObjectRef) : ∃ n, (Store.delete (Store.serve n) o s).Ends := by
  simp only [Store.delete_eq]
  cases hget : s.objects.get? o with
  | none => exact ⟨0, trivial⟩
  | some object =>
    obtain ⟨n, hn⟩ : ∃ n, (deletion (Store.serve n) object.definition o (s.condemning o)).Ends := by
      have hd := hs.defines (.of_get? hget)
      simp only [deletion]
      cases hhooks : object.definition.hooks with
      | none => exact ⟨0, trivial⟩
      | some hooks => exact (h _ hd hooks hhooks (s.condemning o) hs).deleted o
    refine ⟨n, ?_⟩
    dsimp only
    rw [Store.condemning] at hn
    cases hrun : deletion (Store.serve n) object.definition o
        { s with deeds := .condemned o :: s.deeds } with
    | ok _ _ | fault _ _ => trivial
    | breach _ _ | exhausted =>
      rw [hrun] at hn
      exact hn

/-- Whatever is asked of the store comes to an end. -/
theorem serve (r : TableRequest) (hr : r ≠ .count) : ∃ n, (Store.serve n r s).Ends := by
  cases r with
  | read o name => exact (h.read hs o name).imp' (· + 1) fun n hn => hn
  | write o name v => exact (h.write hs o name v).imp' (· + 1) fun n hn => hn
  | delete o => exact (h.delete hs o).imp' (· + 1) fun n hn => hn
  | allocate path =>
    refine ⟨1, ?_⟩
    simp only [Store.serve, Store.allocate_eq]
    cases s.objects.types[path]? <;> trivial
  | alive o =>
    refine ⟨1, ?_⟩
    simp only [Store.serve, Store.ask]
    trivial
  | count => exact absurd rfl hr
  | referenceId o =>
    refine ⟨1, ?_⟩
    simp only [Store.serve, Store.referenceId_eq]
    cases s.objects.referenceId o <;> trivial
  | note e => exact ⟨1, trivial⟩

end ObjectTable.HooksEnd

end ProcEngine
