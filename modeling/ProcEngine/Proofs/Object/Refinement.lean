import ProcEngine.Proofs.Object.Faithful
import ProcEngine.Proofs.Preserves
/-!
# The table refines the ideal store

Whatever is asked of the table, and whatever its hooks ask on the way, is answered as the ideal
store answers it, as long as the deeds stay within bounds: the slots and their generations can be
counted in 32 bits, and no object is deleted from inside the hook of its own deletion.

The bounds are known of the deeds as they are in the end. `Grows` carries them back to every moment
before, and `Mirrors` is the simulation that they allow.
-/

namespace ProcEngine

open History

variable {α β : Type}

namespace Outcome

variable {σ τ : Type}

def mapState (f : σ → τ) : Outcome σ α → Outcome τ α
  | ok a s => ok a (f s)
  | fault e s => fault e (f s)
  | breach b s => breach b (f s)
  | exhausted => exhausted

end Outcome

/-! ### Deeds only grow -/

namespace History

theorem of_suffix {P : List Deed → Prop} (hstep : ∀ d h, P h → P (d :: h)) {h h' : List Deed}
    (hsuffix : h <:+ h') (hh : P h) : P h' := by
  obtain ⟨more, rfl⟩ := hsuffix
  induction more with
  | nil => exact hh
  | cons d more ih => exact hstep d _ ih

theorem Reentrant.mono {h h' : List Deed} (hsuffix : h <:+ h') (hre : Reentrant h) :
    Reentrant h' := by
  refine of_suffix (fun d h hr => ?_) hsuffix hre
  cases d with
  | condemned o => exact Or.inr hr
  | _ => exact hr

theorem made_suffix {h h' : List Deed} (hsuffix : h <:+ h') : made h <:+ made h' := by
  refine of_suffix (P := (made h <:+ made ·)) (fun d h' hs => ?_) hsuffix (List.suffix_refl _)
  cases d with
  | made o d => exact hs.trans (List.suffix_cons o _)
  | _ => exact hs

theorem destroyed_suffix {h h' : List Deed} (hsuffix : h <:+ h') :
    destroyed h <:+ destroyed h' := by
  refine of_suffix (P := (destroyed h <:+ destroyed ·))
    (fun d h' hs => ?_) hsuffix (List.suffix_refl _)
  cases d with
  | destroyed o => exact hs.trans (List.suffix_cons o _)
  | _ => exact hs

end History

/-- What holds of any store and one that comes of it. An object whose deletion has begun is not
destroyed by what goes on meanwhile unless it is deleted again. -/
structure Grows (s s' : Store) : Prop where
  deeds : s.deeds <:+ s'.deeds
  size : s.objects.slots.size ≤ s'.objects.slots.size
  types : s'.objects.types = s.objects.types
  dying : ¬ Reentrant s'.deeds → dying s'.deeds = dying s.deeds
  spares : ¬ Reentrant s'.deeds → ∀ o ∈ History.dying s.deeds, o ∈ destroyed s'.deeds →
    o ∈ destroyed s.deeds

namespace Grows

theorem refl (s : Store) : Grows s s where
  deeds := List.suffix_refl _
  size := Nat.le_refl _
  types := rfl
  dying _ := rfl
  spares _ _ _ h := h

theorem trans {s s' s'' : Store} (h : Grows s s') (h' : Grows s' s'') : Grows s s'' where
  deeds := h.deeds.trans h'.deeds
  size := Nat.le_trans h.size h'.size
  types := h'.types.trans h.types
  dying hre := by
    have hre' : ¬ Reentrant s'.deeds := fun hr => hre (hr.mono h'.deeds)
    rw [h'.dying hre, h.dying hre']
  spares hre o ho hgone := by
    have hre' : ¬ Reentrant s'.deeds := fun hr => hre (hr.mono h'.deeds)
    refine h.spares hre' o ho (h'.spares hre o ?_ hgone)
    rwa [h.dying hre']

end Grows

instance : Std.Refl Grows := ⟨Grows.refl⟩

instance : Trans Grows Grows Grows := ⟨Grows.trans⟩

abbrev Growing (x : Act Store α) : Prop := Act.Preserves Grows x

namespace Growing

theorem ask (f : ObjectTable → Except Fault α) : Growing (Store.ask f) := by
  intro s s' hs
  simp only [Store.ask] at hs
  split at hs <;> cases hs <;> exact Grows.refl s

theorem note (e : Event) : Growing (Store.note e) := by
  intro s _ heq
  cases heq
  split
  · exact Grows.refl s
  · exact { Grows.refl s with }

theorem onTable {f : ObjectTable → Except Fault (α × ObjectTable)}
    (h : ∀ t a t', f t = .ok (a, t') → t.slots.size ≤ t'.slots.size ∧ t'.types = t.types) :
    Growing (Store.onTable f) := by
  intro s s' hs
  simp only [Store.onTable] at hs
  split at hs <;> cases hs
  · rename_i a t ht
    exact { Grows.refl s with size := (h _ _ _ ht).1, types := (h _ _ _ ht).2 }
  · exact Grows.refl s

theorem record {d : Deed} (hdying : ∀ h, dying (d :: h) = dying h)
    (hgone : ∀ h, destroyed (d :: h) = destroyed h) :
    Growing (Store.record d) := by
  intro s _ heq
  cases heq
  exact {
    deeds := List.suffix_cons _ _
    size := Nat.le_refl _
    types := rfl
    dying := fun _ => hdying _
    spares := fun _ _ _ h => hgone s.deeds ▸ h }

theorem read (fuel : Nat) (o : ObjectRef) (name : String) : Growing (Store.read fuel o name) := by
  induction fuel generalizing o name with
  | zero =>
    intro _ _ heq
    cases heq
  | succ fuel ih =>
    refine (ask _).bind fun ⟨object, v⟩ => ?_
    dsimp only
    cases object.definition.hooks with
    | none => exact Act.Preserves.pure v
    | some hooks =>
      refine Act.Preserves.run (fun r => ?_) _
      cases r with
      | read o name => exact ih o name
      | note e => exact note e

theorem allocate (path : String) : Growing (Store.allocate path) := by
  refine (ask _).bind fun d => Act.Preserves.bind (onTable fun t o t' ht => ?_) fun o =>
    Act.Preserves.bind (record (fun _ => rfl) fun _ => rfl) fun _ => Act.Preserves.pure o
  simp only [ObjectTable.allocate] at ht
  cases htype : t.type path with
  | error e => simp [htype, Except.map] at ht
  | ok d =>
    simp only [htype, Except.map, Except.ok.injEq] at ht
    have htypes : (t.allocateOf d).2.types = t.types := t.allocateOf_types d
    have hsize : t.slots.size ≤ (t.allocateOf d).2.slots.size := by
      simp only [ObjectTable.allocateOf, ObjectTable.takeSlot]
      split <;> simp
    rw [ht] at htypes hsize
    exact ⟨hsize, htypes⟩

theorem referenceId (o : ObjectRef) : Growing (Store.referenceId o) := by
  refine Act.Preserves.bind (onTable fun t id t' ht => ?_) fun id =>
    Act.Preserves.bind (record (fun _ => rfl) fun _ => rfl) fun _ => Act.Preserves.pure id
  cases hget : t.get o with
  | error e =>
    rw [ObjectTable.referenceId, hget] at ht
    cases (show (Except.error e : Except Fault (UInt32 × ObjectTable)) = .ok (id, t') from ht)
  | ok object =>
    cases hid : t.idOf[o]? <;> simp only [ObjectTable.referenceId, hget, hid] at ht <;> cases ht <;>
      exact ⟨Nat.le_refl _, rfl⟩

variable {serve : (r : TableRequest) → Act Store r.Answer} (h : ∀ r, Growing (serve r))
include h

theorem write (o : ObjectRef) (name : String) (v : Value) :
    Growing (Store.write serve o name v) := by
  refine (ask _).bind fun ⟨object, old⟩ => ?_
  refine Act.Preserves.bind (onTable ?_) fun _ =>
    Act.Preserves.bind (record (fun _ => rfl) fun _ => rfl) fun _ => ?_
  · intro t _ _ heq
    cases heq
    exact ⟨Nat.le_of_eq (ObjectTable.size_modifySlot ..).symm, rfl⟩
  · cases object.definition.hooks with
    | none => exact Act.Preserves.pure ()
    | some hooks => exact Act.Preserves.run h _

end Growing

/-! ### Deletion

Deletion in one equation each, the hook first. -/

section Delete

/-- The hook that an object's deletion begins with, if its type has any. -/
def deletion {σ : Type} (serve : (r : TableRequest) → Act σ r.Answer) (d : Definition)
    (o : ObjectRef) : Act σ Unit :=
  match d.hooks with
  | none => return ()
  | some hooks => (hooks.deleted o).run serve

theorem Store.delete_eq (serve : (r : TableRequest) → Act Store r.Answer) (o : ObjectRef)
    (s : Store) :
    Store.delete serve o s =
      match s.objects.get? o with
      | none => .ok () s
      | some object =>
        match deletion serve object.definition o { s with deeds := .condemned o :: s.deeds } with
        | .ok _ s =>
          .ok () { s with objects := s.objects.retire o, deeds := .destroyed o :: s.deeds }
        | .fault e s => .fault e { s with deeds := .spared o :: s.deeds }
        | .breach b s => .breach b s
        | .exhausted => .exhausted := by
  simp only [delete, Act.bind_apply, Act.get_apply]
  cases s.objects.get? o with
  | none => rfl
  | some object =>
    simp only [deletion, record, Act.bind_apply]
    cases object.definition.hooks with
    | none => rfl
    | some hooks =>
      simp only [sparing, Act.bind_apply]
      cases (hooks.deleted o).run serve { s with deeds := .condemned o :: s.deeds } <;> rfl

theorem Ideal.delete_eq (serve : (r : TableRequest) → Act Ideal r.Answer) {o : ObjectRef}
    {d : Definition} {i : Ideal}
    (hliving : o ∈ living i.deeds) (hd : definition? o i.deeds = some d) :
    Ideal.delete serve o i =
      match deletion serve d o { i with deeds := .condemned o :: i.deeds } with
      | .ok _ i => .ok () { i with deeds := .destroyed o :: i.deeds }
      | .fault e i => .fault e { i with deeds := .spared o :: i.deeds }
      | .breach b i => .breach b i
      | .exhausted => .exhausted := by
  simp only [delete, Act.bind_apply, Act.get_apply, hliving, if_true, hd, Option.bind_some,
    deletion, record]
  cases d.hooks with
  | none => rfl
  | some hooks =>
    simp only [sparing, Act.bind_apply]
    cases (hooks.deleted o).run serve { i with deeds := .condemned o :: i.deeds } <;> rfl

end Delete

namespace Growing

variable {serve : (r : TableRequest) → Act Store r.Answer} (h : ∀ r, Growing (serve r))
include h

theorem deletion (d : Definition) (o : ObjectRef) : Growing (ProcEngine.deletion serve d o) := by
  simp only [ProcEngine.deletion]
  cases d.hooks with
  | none => exact Act.Preserves.pure ()
  | some hooks => exact Act.Preserves.run h _

/-- The end of a deletion takes the object off those that are being deleted. -/
theorem delete (o : ObjectRef) : Growing (Store.delete serve o) := by
  intro s s' hs
  rw [Store.delete_eq] at hs
  cases hget : s.objects.get? o with
  | none =>
    rw [hget] at hs
    cases hs
    exact Grows.refl s
  | some object =>
    simp only [hget] at hs
    have hhook := deletion h object.definition o { s with deeds := .condemned o :: s.deeds }
    -- Whether it was destroyed or spared, what matters is that it was not being deleted before.
    have hover (s₁ : Store) (t : ObjectTable) (d : Deed)
        (hg : Grows { s with deeds := .condemned o :: s.deeds } s₁)
        (hsize : t.slots.size = s₁.objects.slots.size) (htypes : t.types = s₁.objects.types)
        (hdying : dying (d :: s₁.deeds) = (dying s₁.deeds).erase o)
        (hgone : ∀ o' ≠ o, o' ∈ destroyed (d :: s₁.deeds) → o' ∈ destroyed s₁.deeds)
        (hre : Reentrant s₁.deeds → Reentrant (d :: s₁.deeds)) :
        Grows s { s₁ with objects := t, deeds := d :: s₁.deeds } := by
      have hnot (hr : ¬ Reentrant (d :: s₁.deeds)) : ¬ Reentrant s₁.deeds ∧ o ∉ dying s.deeds :=
        ⟨fun hr' => hr (hre hr'), fun ho => hr (hre (Reentrant.mono hg.deeds (Or.inl ho)))⟩
      exact {
        deeds := ((List.suffix_cons _ _).trans hg.deeds).trans (List.suffix_cons _ _)
        size := hsize ▸ hg.size
        types := htypes.trans hg.types
        dying := fun hr => by
          rw [hdying, hg.dying (hnot hr).1]
          exact List.erase_cons_head o (History.dying s.deeds)
        spares := fun hr o' ho' ho'' => by
          have hne : o' ≠ o := fun heq => (hnot hr).2 (heq ▸ ho')
          exact hg.spares (hnot hr).1 o' (List.mem_cons_of_mem _ ho') (hgone o' hne ho'') }
    cases hrun : ProcEngine.deletion serve object.definition o
        { s with deeds := .condemned o :: s.deeds } with
    | ok a s₁ =>
      rw [hrun] at hs
      obtain rfl := Option.some.inj hs
      refine hover s₁ _ _ (hhook s₁ (by rw [hrun]; rfl)) (by simp)
        (by simp) rfl (fun o' hne hm => ?_) id
      exact (List.mem_cons.mp hm).resolve_left hne
    | fault e s₁ =>
      rw [hrun] at hs
      obtain rfl := Option.some.inj hs
      exact hover s₁ _ _ (hhook s₁ (by rw [hrun]; rfl)) rfl rfl rfl (fun o' hne hm => hm) id
    | breach b s₁ => simp [hrun, Outcome.state?] at hs
    | exhausted => simp [hrun, Outcome.state?] at hs

end Growing

namespace Growing

theorem serve (fuel : Nat) (r : TableRequest) : Growing (Store.serve fuel r) := by
  induction fuel generalizing r with
  | zero =>
    intro _ _ heq
    cases heq
  | succ fuel ih =>
    cases r with
    | read o name => exact read fuel o name
    | write o name v => exact write ih o name v
    | delete o => exact delete ih o
    | allocate path => exact allocate path
    | alive o => exact ask _
    | count => exact .inspect _ _ _
    | referenceId o => exact referenceId o
    | note e => exact note e

theorem answer (fuel : Nat) (call : TableCall) : Growing (Store.answer fuel call) := by
  cases call with
  | get o => exact (ask _).bind fun object => Act.Preserves.pure _
  | getProc o name => exact (ask _).bind fun p => Act.Preserves.pure _
  | tryGetProc o name => exact (ask _).bind fun p => Act.Preserves.pure _
  | allocate path => exact (serve fuel _).bind fun o => Act.Preserves.pure _
  | delete o => exact (serve fuel _).bind fun _ => Act.Preserves.pure _
  | getVariable o name => exact (serve fuel _).bind fun v => Act.Preserves.pure _
  | setVariable o name v => exact (serve fuel _).bind fun _ => Act.Preserves.pure _
  | isAlive o => exact (serve fuel _).bind fun b => Act.Preserves.pure _
  | len => exact (serve fuel _).bind fun n => Act.Preserves.pure _

end Growing

/-! ### The simulation -/

/-- What the ideal store would be if the same had been done to it. -/
def Store.ideal (s : Store) : Ideal := ⟨s.objects.types, s.deeds, s.journal⟩

/-- The bounds within which the table is as good as the ideal store. -/
structure Sound (name : Nat → ObjectRef) (s : Store) : Prop where
  slots : s.objects.slots.size < 2 ^ 32
  freed : ∀ index, timesFreed index s.deeds < 2 ^ 32
  once : ¬ Reentrant s.deeds
  named : ∀ k < (made s.deeds).length, (made s.deeds).reverse[k]? = some (name k)

/-- The handle of the `k`-th object that was made. -/
def History.nth (h : List Deed) (k : Nat) : ObjectRef := (made h).reverse[k]?.getD default

theorem Sound.of_bounds {s : Store} (hslots : s.objects.slots.size < 2 ^ 32)
    (hfreed : ∀ index, timesFreed index s.deeds < 2 ^ 32) (honce : ¬ Reentrant s.deeds) :
    Sound (nth s.deeds) s where
  slots := hslots
  freed := hfreed
  once := honce
  named k hk := by
    rw [List.getElem?_eq_getElem (by simpa using hk)]
    simp [nth, hk]

theorem Sound.before {name : Nat → ObjectRef} {s s' : Store} (h : Sound name s')
    (hdeeds : s.deeds <:+ s'.deeds)
    (hsize : s.objects.slots.size ≤ s'.objects.slots.size) : Sound name s where
  slots := Nat.lt_of_le_of_lt hsize h.slots
  freed index := Nat.lt_of_le_of_lt ((destroyed_suffix hdeeds).sublist.countP_le) (h.freed index)
  once hre := h.once (hre.mono hdeeds)
  named k hk := by
    obtain ⟨later, hlater⟩ := made_suffix hdeeds
    have hname := h.named k (by rw [← hlater, List.length_append]; omega)
    rwa [← hlater, List.reverse_append, List.getElem?_append_left (by simpa using hk)] at hname

theorem Sound.of_grows {name : Nat → ObjectRef} {s s' : Store} (h : Sound name s')
    (hg : Grows s s') : Sound name s :=
  h.before hg.deeds hg.size

/-- Doing `x` to a store comes to the same as doing `y` to the ideal one. -/
def MirrorsAt (name : Nat → ObjectRef) (s : Store) (x : Act Store α) (y : Act Ideal α) : Prop :=
  ∀ s', (x s).state? = some s' → Sound name s' →
    Faithful s'.objects s'.deeds ∧ y s.ideal = (x s).mapState Store.ideal

def Mirrors (name : Nat → ObjectRef) (x : Act Store α) (y : Act Ideal α) : Prop :=
  ∀ s, Faithful s.objects s.deeds → MirrorsAt name s x y

namespace Mirrors

variable {name : Nat → ObjectRef}

theorem pure (a : α) : Mirrors name (Pure.pure a) (Pure.pure a) := by
  intro s hf _ heq _
  cases heq
  exact ⟨hf, rfl⟩

theorem raise (e : Fault) : Mirrors name (Act.raise e : Act Store α) (Act.raise e) := by
  intro s hf _ heq _
  cases heq
  exact ⟨hf, rfl⟩

theorem bind {x : Act Store α} {y : Act Ideal α} {f : α → Act Store β} {g : α → Act Ideal β}
    (hx : Mirrors name x y)
    (hf : ∀ a, Mirrors name (f a) (g a)) (hgrowing : ∀ a, Growing (f a)) : Mirrors name (x >>= f)
    (y >>= g) := by
  intro s hfaith s' hs hsound
  rw [Act.bind_apply] at hs ⊢
  rw [Act.bind_apply]
  cases hrun : x s with
  | ok a s₁ =>
    simp only [hrun] at hs ⊢
    have hsound₁ := hsound.of_grows (hgrowing a s₁ s' hs)
    obtain ⟨hfaith₁, hy⟩ := hx s hfaith s₁ (by rw [hrun]; rfl) hsound₁
    rw [hy, hrun]
    exact hf a s₁ hfaith₁ s' hs hsound
  | fault e s₁ =>
    simp only [hrun] at hs ⊢
    obtain ⟨hfaith₁, hy⟩ := hx s hfaith s' (by rw [hrun]; exact hs) hsound
    rw [hy, hrun]
    exact ⟨hfaith₁, rfl⟩
  | breach b s₁ => simp [hrun, Outcome.state?] at hs
  | exhausted => simp [hrun, Outcome.state?] at hs

theorem run {i : Interface} {serve : (r : i.Request) → Act Store (i.Answer r)}
    {serve' : (r : i.Request) → Act Ideal (i.Answer r)} (h : ∀ r, Mirrors name (serve r) (serve' r))
    (hgrowing : ∀ r, Growing (serve r)) (p : Program i α) : Mirrors name (p.run serve)
    (p.run serve') := by
  induction p with
  | done a => exact pure a
  | fail e => exact raise e
  | ask r next ih =>
    intro s hfaith s' hs hsound
    simp only [Program.run] at hs ⊢
    cases hrun : serve r s with
    | ok a s₁ =>
      simp only [hrun] at hs ⊢
      have hsound₁ := hsound.of_grows (Act.Preserves.run hgrowing (next (.ok a)) s₁ s' hs)
      obtain ⟨hfaith₁, hy⟩ := h r s hfaith s₁ (by rw [hrun]; rfl) hsound₁
      rw [hy, hrun]
      exact ih (.ok a) s₁ hfaith₁ s' hs hsound
    | fault e s₁ =>
      simp only [hrun] at hs ⊢
      have hsound₁ := hsound.of_grows (Act.Preserves.run hgrowing (next (.error e)) s₁ s' hs)
      obtain ⟨hfaith₁, hy⟩ := h r s hfaith s₁ (by rw [hrun]; rfl) hsound₁
      rw [hy, hrun]
      exact ih (.error e) s₁ hfaith₁ s' hs hsound
    | breach b s₁ => simp [hrun, Outcome.state?] at hs
    | exhausted => simp [hrun, Outcome.state?] at hs

theorem note (e : Event) : Mirrors name (Store.note e) (Ideal.note e) := by
  intro s hf _ heq _
  cases heq
  simp only [Store.note, Ideal.note]
  split <;> exact ⟨hf, rfl⟩

/-- Looking is mirrored by what shows the same. -/
theorem ask {f : ObjectTable → Except Fault α} {y : Act Ideal α}
    (h : ∀ s : Store, Faithful s.objects s.deeds →
      y s.ideal = (Store.ask f s).mapState Store.ideal) :
    Mirrors name (Store.ask f) y := by
  intro s hf s' hs _
  refine ⟨?_, h s hf⟩
  simp only [Store.ask] at hs
  split at hs <;> cases hs <;> exact hf

theorem look {x : Act Store α} {y : Act Ideal α} (f : Store → Except Fault α)
    (hx : ∀ s, x s = Act.ofExcept (f s) s)
    (hy : ∀ s : Store, Faithful s.objects s.deeds → y s.ideal = Act.ofExcept (f s) s.ideal) :
    Mirrors name x y := by
  intro s hf s' hs _
  rw [hx] at hs ⊢
  rw [hy s hf]
  cases h : f s with
  | ok a =>
    rw [h] at hs
    obtain rfl := Option.some.inj hs
    exact ⟨hf, rfl⟩
  | error e =>
    rw [h] at hs
    obtain rfl := Option.some.inj hs
    exact ⟨hf, rfl⟩

/-- Looking is mirrored by what shows as much as is needed of what is seen for what is done next. -/
theorem ask_bind {γ : Type} {f : ObjectTable → Except Fault α} {y : Act Ideal γ} (shown : α → γ)
    (h : ∀ s : Store, Faithful s.objects s.deeds → y s.ideal = match f s.objects with
      | .ok a => .ok (shown a) s.ideal
      | .error e => .fault e s.ideal)
    {k : α → Act Store β} {g : γ → Act Ideal β}
    (hk : ∀ s a, Faithful s.objects s.deeds → f s.objects = .ok a → MirrorsAt name s (k a)
      (g (shown a))) :
    Mirrors name (Store.ask f >>= k) (y >>= g) := by
  intro s hf s' hs hsound
  rw [Act.bind_apply] at hs ⊢
  rw [Act.bind_apply, h s hf]
  simp only [Store.ask] at hs ⊢
  cases hlook : f s.objects with
  | ok a =>
    simp only [hlook] at hs ⊢
    exact hk s a hf hlook s' hs hsound
  | error e =>
    simp only [hlook] at hs ⊢
    obtain rfl := Option.some.inj hs
    exact ⟨hf, rfl⟩

end Mirrors

/-! ### Looking at an object -/

section Looking

variable {s : Store} (hf : Faithful s.objects s.deeds)
include hf

theorem Faithful.definition (o : ObjectRef) :
    Ideal.definition o s.ideal = match s.objects.get? o with
      | some object => .ok object.definition s.ideal
      | none => .fault (.deletedObject o) s.ideal := by
  have halive := hf.alive o
  cases hget : s.objects.get? o with
  | none =>
    rw [hget] at halive
    have hdead : o ∉ living s.ideal.deeds := fun hliving => by simpa using halive.mp hliving
    simp only [Ideal.definition, hdead, if_false]
  | some object =>
    rw [hget] at halive
    have hliving : o ∈ living s.ideal.deeds := halive.mpr rfl
    simp only [Ideal.definition, hliving, if_true,
      show definition? o s.ideal.deeds = _ from (hf.object o object hget).1]

theorem Faithful.stored (o : ObjectRef) (x : String) :
    Ideal.stored o x s.ideal = match s.objects.stored o x with
      | .ok (object, v) => .ok (object.definition, v) s.ideal
      | .error e => .fault e s.ideal := by
  simp only [Ideal.stored, Act.bind_apply, hf.definition, Act.get_apply]
  cases hget : s.objects.get? o with
  | none => simp only [ObjectTable.stored, ObjectTable.get, hget, bind, Except.bind]
  | some object =>
    have hvariable :
        object.variable? x = (assigned? o x s.ideal.deeds <|> object.definition.vars[x]?) := by
      unfold Object.variable?
      rw [(hf.object o object hget).2]
      rfl
    simp only [ObjectTable.stored, ObjectTable.get, hget, bind, Except.bind, ← hvariable]
    cases object.variable? x <;> rfl

end Looking

/-! ### Requests -/

namespace Mirrors

variable {name : Nat → ObjectRef}

theorem read (fuel : Nat) (o : ObjectRef) (x : String) :
    Mirrors name (Store.read fuel o x) (Ideal.read fuel o x) := by
  induction fuel generalizing o x with
  | zero =>
    intro _ _ _ heq
    cases heq
  | succ fuel ih =>
    refine ask_bind (fun p => (p.1.definition, p.2)) (fun s hf => (hf.stored o x).trans ?_)
      fun s ⟨object, v⟩ hf _ => ?_
    · cases s.objects.stored o x <;> rfl
    · suffices h : Mirrors name _ _ from h s hf
      dsimp only
      cases object.definition.hooks with
      | none => exact pure v
      | some hooks =>
        refine run (fun r => ?_) (fun r => ?_) _
        · cases r with
          | read o name => exact ih o name
          | note e => exact note e
        · cases r with
          | read o name => exact Growing.read fuel o name
          | note e => exact Growing.note e

theorem allocate (path : String) : Mirrors name (Store.allocate path)
    (Ideal.allocate name path) := by
  intro s hf s' hs hsound
  cases hd : s.objects.types[path]? with
  | none =>
    have htype : s.objects.type path = .error (.unknownType path) := by
      simp only [ObjectTable.type, hd]
    have hstore : Store.allocate path s = .fault (.unknownType path) s := by
      simp only [Store.allocate, Act.bind_apply, Store.ask, htype]
    rw [hstore] at hs ⊢
    obtain rfl := Option.some.inj hs
    refine ⟨hf, ?_⟩
    simp only [Ideal.allocate, Act.bind_apply, Act.get_apply,
      show s.ideal.types[path]? = none from hd]
    rfl
  | some d =>
    have htype : s.objects.type path = .ok d := by simp only [ObjectTable.type, hd]
    have hstore : Store.allocate path s = .ok (s.objects.allocateOf d).1
        { s with
          objects := (s.objects.allocateOf d).2
          deeds := .made (s.objects.allocateOf d).1 d :: s.deeds } := by
      simp only [Store.allocate, Act.bind_apply, Store.ask, htype, Store.onTable,
        ObjectTable.allocate]
      rfl
    rw [hstore] at hs ⊢
    obtain rfl := Option.some.inj hs
    refine ⟨hf.made (hf.takes d hsound.slots), ?_⟩
    have hname : name (History.made s.deeds).length = (s.objects.allocateOf d).1 := by
      have hlast := hsound.named (History.made s.deeds).length (Nat.lt_succ_self _)
      rw [show History.made _ = (s.objects.allocateOf d).1 :: History.made s.deeds from rfl,
        List.reverse_cons, List.getElem?_append_right (by simp)] at hlast
      simpa using hlast.symm
    simp only [Ideal.allocate, Act.bind_apply, Act.get_apply, show s.ideal.types[path]? =
      some d from hd, show name (History.made s.ideal.deeds).length = _ from hname]
    simp only [Ideal.record, Outcome.mapState, Store.ideal, ObjectTable.allocateOf_types]
    rfl

theorem referenceId (o : ObjectRef) : Mirrors name (Store.referenceId o) (Ideal.referenceId o) := by
  intro s hf s' hs hsound
  cases hget : s.objects.get? o with
  | none =>
    have hstore : Store.referenceId o s = .fault (.deletedObject o) s := by
      have hdead : s.objects.referenceId o = .error (.deletedObject o) := by
        rw [ObjectTable.referenceId, ObjectTable.get, hget]
        rfl
      simp only [Store.referenceId, Act.bind_apply, Store.onTable, hdead]
    rw [hstore] at hs ⊢
    obtain rfl := Option.some.inj hs
    refine ⟨hf, ?_⟩
    simp only [Ideal.referenceId, Act.bind_apply, hf.definition, hget]
    rfl
  | some object =>
    obtain ⟨t, ht, htypes, _, hf'⟩ := hf.referenceId (o := o) (by rw [hget]; rfl)
    have hstore : Store.referenceId o s =
        .ok (UInt32.ofNat ((numbered s.deeds).idxOf o))
          { s with objects := t, deeds := .numbered o :: s.deeds } := by
      simp only [Store.referenceId, Act.bind_apply, Store.onTable, ht]
      rfl
    rw [hstore] at hs ⊢
    obtain rfl := Option.some.inj hs
    refine ⟨hf', ?_⟩
    simp only [Ideal.referenceId, Act.bind_apply, hf.definition, hget]
    simp only [Outcome.mapState, Store.ideal, htypes]
    rfl

section Hooks

variable {serve : (r : TableRequest) → Act Store r.Answer}
  {serve' : (r : TableRequest) → Act Ideal r.Answer}
  (h : ∀ r, Mirrors name (serve r) (serve' r)) (hgrowing : ∀ r, Growing (serve r))
include h hgrowing

theorem write (o : ObjectRef) (x : String) (v : Value) :
    Mirrors name (Store.write serve o x v) (Ideal.write serve' o x v) := by
  refine ask_bind (fun p => (p.1.definition, p.2)) (fun s hf => (hf.stored o x).trans ?_)
    fun s ⟨object, old⟩ hf hstored => ?_
  · cases s.objects.stored o x <;> rfl
  · have halive : (s.objects.get? o).isSome := by
      rw [s.objects.get?_of_stored hstored]
      rfl
    suffices hhook : Mirrors name
        (match object.definition.hooks with
          | none => return ()
          | some hooks => (hooks.written o x v old).run serve)
        (match object.definition.hooks with
          | none => return ()
          | some hooks => (hooks.written o x v old).run serve') from
      hhook { s with objects := s.objects.assign o x v, deeds := .assigned o x v :: s.deeds }
        (hf.assigned halive x v)
    cases object.definition.hooks with
    | none => exact pure ()
    | some hooks => exact run h hgrowing _

theorem deletion (d : Definition) (o : ObjectRef) :
    Mirrors name (ProcEngine.deletion serve d o) (ProcEngine.deletion serve' d o) := by
  simp only [ProcEngine.deletion]
  cases d.hooks with
  | none => exact pure ()
  | some hooks => exact run h hgrowing _

omit h hgrowing in
theorem condemned {s : Store} (hf : Faithful s.objects s.deeds) (o : ObjectRef) :
    Faithful s.objects (.condemned o :: s.deeds) := { hf with }

/-- Within bounds, an object outlives the hook of its deletion. -/
theorem outlives {s s₁ : Store} (hf : Faithful s.objects s.deeds) {o : ObjectRef} {object : Object}
    (hget : s.objects.get? o = some object)
    (hrun :
      ProcEngine.deletion serve object.definition o { s with deeds := .condemned o :: s.deeds } =
        .ok () s₁)
    (hsound : Sound name s₁) : Faithful s₁.objects s₁.deeds ∧ (s₁.objects.get? o).isSome := by
  have hhook :=
    deletion h hgrowing object.definition o { s with deeds := .condemned o :: s.deeds }
      (condemned hf o)
  have hgrown :=
    Growing.deletion hgrowing object.definition o { s with deeds := .condemned o :: s.deeds } s₁
    (by rw [hrun]; rfl)
  obtain ⟨hf₁, _⟩ := hhook s₁ (by rw [hrun]; rfl) hsound
  obtain ⟨hmade, hkept⟩ := hf.not_destroyed hget
  refine ⟨hf₁,
    (hf₁.alive o).mp (mem_living.mpr ⟨(made_suffix hgrown.deeds).subset hmade,
      fun hgone => hkept ?_⟩)⟩
  exact hgrown.spares hsound.once o List.mem_cons_self hgone

/-- So it is its own slot that is freed then. -/
theorem delete (o : ObjectRef) : Mirrors name (Store.delete serve o) (Ideal.delete serve' o) := by
  intro s hf s' hs hsound
  rw [Store.delete_eq] at hs ⊢
  cases hget : s.objects.get? o with
  | none =>
    rw [hget] at hs
    obtain rfl := Option.some.inj hs
    have hdead : o ∉ living s.ideal.deeds :=
      fun hliving => by simpa [hget] using (hf.alive o).mp hliving
    refine ⟨hf, ?_⟩
    simp only [Ideal.delete, Act.bind_apply, Act.get_apply, hdead, if_false]
    rfl
  | some object =>
    have hliving : o ∈ living s.ideal.deeds := (hf.alive o).mpr (by rw [hget]; rfl)
    rw [Ideal.delete_eq serve' hliving (hf.object o object hget).1]
    simp only [hget] at hs ⊢
    have hhook :=
      deletion h hgrowing object.definition o { s with deeds := .condemned o :: s.deeds }
        (condemned hf o)
    cases hrun : ProcEngine.deletion serve object.definition o
        { s with deeds := .condemned o :: s.deeds } with
    | ok a s₁ =>
      simp only [MirrorsAt, hrun] at hs hhook ⊢
      obtain rfl := Option.some.inj hs
      have hsound₁ : Sound name s₁ :=
        hsound.before (List.suffix_cons _ _) (Nat.le_of_eq (s₁.objects.retire_size o).symm)
      obtain ⟨_, hideal⟩ := hhook s₁ rfl hsound₁
      obtain ⟨hf₁, halive⟩ := outlives h hgrowing hf hget hrun hsound₁
      refine ⟨hf₁.destroyed halive (hsound.freed o.index), ?_⟩
      rw [show ProcEngine.deletion serve' object.definition o
        { s.ideal with deeds := .condemned o :: s.ideal.deeds } = _ from hideal]
      simp only [Outcome.mapState, Store.ideal, ObjectTable.retire_types]
    | fault e s₁ =>
      simp only [MirrorsAt, hrun] at hs hhook ⊢
      obtain rfl := Option.some.inj hs
      obtain ⟨hf₁, hideal⟩ := hhook s₁ rfl (hsound.before (List.suffix_cons _ _) (Nat.le_refl _))
      refine ⟨{ hf₁ with }, ?_⟩
      rw [show ProcEngine.deletion serve' object.definition o
        { s.ideal with deeds := .condemned o :: s.ideal.deeds } = _ from hideal]
      rfl
    | breach b s₁ => simp [hrun, Outcome.state?] at hs
    | exhausted => simp [hrun, Outcome.state?] at hs

end Hooks

theorem serve (fuel : Nat) (r : TableRequest) : Mirrors name (Store.serve fuel r)
    (Ideal.serve name fuel r) := by
  induction fuel generalizing r with
  | zero =>
    intro _ _ _ heq
    cases heq
  | succ fuel ih =>
    cases r with
    | read o x => exact read fuel o x
    | write o x v => exact write ih (Growing.serve fuel) o x v
    | delete o => exact delete ih (Growing.serve fuel) o
    | allocate path => exact allocate path
    | alive o =>
      refine ask fun s hf => ?_
      have halive : decide (o ∈ living s.deeds) = s.objects.isAlive o :=
        Bool.eq_iff_iff.mpr (decide_eq_true_iff.trans (hf.alive o))
      simp only [Store.ask, ← halive]
      rfl
    | count =>
      intro s hf s' hs _
      have hfree : s.objects.free.length ≤ s.objects.slots.size := hf.count ▸ Nat.le_add_right _ _
      rw [Store.serve, Store.count_eq, if_pos hfree, hf.size] at hs ⊢
      cases hs
      exact ⟨hf, rfl⟩
    | referenceId o => exact referenceId o
    | note e => exact note e

theorem answer (fuel : Nat) (call : TableCall) :
    Mirrors name (Store.answer fuel call) (Ideal.answer name fuel call) := by
  have hserve (r : TableRequest) : Mirrors name (Store.serve fuel r) (Ideal.serve name fuel r) :=
    serve fuel r
  cases call with
  | allocate path => exact (hserve _).bind (fun o => pure _) fun o => Act.Preserves.pure _
  | delete o => exact (hserve _).bind (fun _ => pure _) fun _ => Act.Preserves.pure _
  | getVariable o x => exact (hserve _).bind (fun v => pure _) fun v => Act.Preserves.pure _
  | setVariable o x v => exact (hserve _).bind (fun _ => pure _) fun _ => Act.Preserves.pure _
  | isAlive o => exact (hserve _).bind (fun b => pure _) fun b => Act.Preserves.pure _
  | len => exact (hserve _).bind (fun n => pure _) fun n => Act.Preserves.pure _
  | get o =>
    refine look (fun s => match s.objects.get? o with
      | some object => .ok (.contents object.definition fun x => object.vars[x]?)
      | none => .error (.deletedObject o)) (fun s => ?_) fun s hf => ?_
    · simp only [Store.answer, Act.bind_apply, Store.ask, ObjectTable.get]
      cases s.objects.get? o <;> rfl
    · simp only [Ideal.answer, Act.bind_apply, hf.definition]
      cases hget : s.objects.get? o with
      | none => rfl
      | some object =>
        have hvars : (fun x => object.vars[x]?) = fun x => assigned? o x s.ideal.deeds :=
          funext (hf.object o object hget).2
        simp only [hvars]
        rfl
  | getProc o x =>
    refine look (fun s => (s.objects.proc o x).map Reply.proc) (fun s => ?_) fun s hf => ?_
    · simp only [Store.answer, Act.bind_apply, Store.ask]
      cases s.objects.proc o x <;> rfl
    · simp only [Ideal.answer, Act.bind_apply, hf.definition, ObjectTable.proc,
        ObjectTable.definition, ObjectTable.get]
      cases s.objects.get? o with
      | none => rfl
      | some object =>
        cases hp : object.definition.procs[x]? <;>
          simp only [Bind.bind, Except.bind, Pure.pure, Except.pure, hp] <;> rfl
  | tryGetProc o x =>
    refine look (fun s => match s.objects.get? o with
      | some object => .ok (.proc? object.definition.procs[x]?)
      | none => .error (.deletedObject o)) (fun s => ?_) fun s hf => ?_
    · simp only [Store.answer, Act.bind_apply, Store.ask, ObjectTable.proc?, ObjectTable.definition,
        ObjectTable.get]
      cases s.objects.get? o <;> rfl
    · simp only [Ideal.answer, Act.bind_apply, hf.definition]
      cases s.objects.get? o <;> rfl

end Mirrors

theorem Growing.replies (fuel : Nat) (calls : List TableCall) :
    Growing (ProcEngine.replies (Store.answer fuel) calls) := by
  induction calls with
  | nil => exact Act.Preserves.pure _
  | cons call rest ih =>
    have hmore (reply : Reply) := ih.bind fun later => Act.Preserves.pure (reply :: later)
    intro s s' hs
    simp only [ProcEngine.replies] at hs
    cases hrun : Store.answer fuel call s with
    | ok reply s₁ =>
      rw [hrun] at hs
      exact (Growing.answer fuel call s s₁ (by rw [hrun]; rfl)).trans (hmore _ s₁ s' hs)
    | fault e s₁ =>
      rw [hrun] at hs
      exact (Growing.answer fuel call s s₁ (by rw [hrun]; rfl)).trans (hmore _ s₁ s' hs)
    | breach b s₁ => simp [hrun, Outcome.state?] at hs
    | exhausted => simp [hrun, Outcome.state?] at hs

theorem Mirrors.replies {name : Nat → ObjectRef} (fuel : Nat) (calls : List TableCall) :
    Mirrors name (ProcEngine.replies (Store.answer fuel) calls)
      (ProcEngine.replies (Ideal.answer name fuel) calls) := by
  induction calls with
  | nil => exact Mirrors.pure _
  | cons call rest ih =>
    have hmore (reply : Reply) :=
      ih.bind (fun later => Mirrors.pure (reply :: later)) fun _ => Act.Preserves.pure _
    have hgrows (reply : Reply) :=
      (Growing.replies fuel rest).bind fun later => Act.Preserves.pure (reply :: later)
    intro s hf s' hs hsound
    simp only [ProcEngine.replies] at hs ⊢
    cases hrun : Store.answer fuel call s with
    | ok reply s₁ =>
      simp only [hrun] at hs ⊢
      have hsound₁ := hsound.of_grows (hgrows reply s₁ s' hs)
      obtain ⟨hf₁, hideal⟩ := Mirrors.answer fuel call s hf s₁ (by rw [hrun]; rfl) hsound₁
      rw [hideal, hrun]
      exact hmore reply s₁ hf₁ s' hs hsound
    | fault e s₁ =>
      simp only [hrun] at hs ⊢
      have hsound₁ := hsound.of_grows (hgrows (.failed e) s₁ s' hs)
      obtain ⟨hf₁, hideal⟩ := Mirrors.answer fuel call s hf s₁ (by rw [hrun]; rfl) hsound₁
      rw [hideal, hrun]
      exact hmore (.failed e) s₁ hf₁ s' hs hsound
    | breach b s₁ => simp [hrun, Outcome.state?] at hs
    | exhausted => simp [hrun, Outcome.state?] at hs

/-- The table answers every sequence of calls as the ideal store does that gives its objects the
handles that the table gives them, and no two objects have the same. -/
theorem table_refines_ideal (types : Names Definition) (fuel : Nat) (calls : List TableCall)
    (answers : List Reply)
    (s : Store) (hrun : replies (Store.answer fuel) calls { objects := { types } } = .ok answers s)
    (hslots : s.objects.slots.size < 2 ^ 32) (hfreed : ∀ index, timesFreed index s.deeds < 2 ^ 32)
    (honce : ¬ Reentrant s.deeds) :
    ∃ name : Nat → ObjectRef, (∀ j k, j < k → k < (made s.deeds).length → name j ≠ name k) ∧
      replies (Ideal.answer name fuel) calls { types } =
        .ok answers { types, deeds := s.deeds, journal := s.journal } := by
  have hsound := Sound.of_bounds hslots hfreed honce
  have hstate : (replies (Store.answer fuel) calls { objects := { types } }).state? = some s := by
    rw [hrun]; rfl
  obtain ⟨hf, hideal⟩ := Mirrors.replies fuel calls _ (Faithful.empty types) s hstate hsound
  have hgrown := Growing.replies fuel calls _ s hstate
  refine ⟨nth s.deeds, fun j k hjk hk heq => ?_, ?_⟩
  · have hj := hsound.named j (Nat.lt_trans hjk hk)
    rw [heq, ← hsound.named k hk] at hj
    have hnodup : (made s.deeds).reverse.Nodup :=
      List.pairwise_reverse.mpr (hf.made_nodup.imp Ne.symm)
    exact Nat.ne_of_lt hjk ((List.getElem?_inj (by simpa using Nat.lt_trans hjk hk) hnodup).mp hj)
  · rw [show ({ types } : Ideal) = ({ objects := { types } } : Store).ideal from rfl, hideal, hrun]
    simp only [Outcome.mapState, Store.ideal, hgrown.types]

theorem reused_slot_refines_ideal :
    let mob : Definition := ⟨"/mob", none, ∅, ∅, none, some Hooks.none⟩
    let types := (∅ : Names Definition).insert "/mob" mob
    let deeds := [.made ⟨0, 1⟩ mob, .destroyed ⟨0, 0⟩, .condemned ⟨0, 0⟩, .made ⟨0, 0⟩ mob]
    ∃ name : Nat → ObjectRef, (∀ j k, j < k → k < (made deeds).length → name j ≠ name k) ∧
      replies (Ideal.answer name 1)
        [.allocate "/mob", .delete ⟨0, 0⟩, .allocate "/mob", .isAlive ⟨0, 0⟩, .len] { types } =
        .ok [.object ⟨0, 0⟩, .done, .object ⟨0, 1⟩, .flag false, .number 1]
          { types, deeds, journal := #[] } := by
  intro mob types deeds
  let s : Store := { objects := { types, slots := #[⟨1, some { definition := mob }⟩] }, deeds }
  have hfreed (index : UInt32) : timesFreed index s.deeds < 2 ^ 32 :=
    Nat.lt_of_le_of_lt List.countP_le_length (by decide)
  exact table_refines_ideal types 1 _ _ s rfl (by decide) hfreed
    (by simp [s, deeds, Reentrant, dying])

end ProcEngine
