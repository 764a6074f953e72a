import ProcEngine.Proofs.Context.Construction
/-!
# Assignments that fail

A value has been assigned by the time the hook is told of it, and nothing is taken back when the
hook refuses. So an assignment that fails leaves every variable of every object as it was, unless it
is the hook that fails: then the one that was to be assigned has the new value, and all others are
as the hook has left them.
-/

namespace ProcEngine

/-! ### Hooks that only look -/

/-- It cannot change the table, whatever hooks are run for it. -/
def TableRequest.isLook : TableRequest → Bool
  | read .. | alive _ | count | note _ => true
  | write .. | delete _ | allocate _ | referenceId _ => false

def Program.Looks {α : Type} : Program TableCalls α → Prop
  | done _ | fail _ => True
  | ask r next => TableRequest.isLook r ∧ ∀ answer, (next answer).Looks

namespace Store

/-- The objects are the same. -/
def Untouched (s s' : Store) : Prop := s'.objects = s.objects

instance : Std.Refl Untouched := ⟨fun _ => rfl⟩

instance : Trans Untouched Untouched Untouched := ⟨fun h h' => Eq.trans h' h⟩

abbrev Looking {α : Type} (x : Act Store α) : Prop := Act.Preserves Untouched x

namespace Looking

theorem note (e : Event) : Looking (Store.note e) := by
  intro s s' hs
  cases hs
  split <;> rfl

theorem serve (fuel : Nat) {r : TableRequest} (hr : r.isLook) : Looking (Store.serve fuel r) := by
  cases fuel with
  | zero =>
    intro s s' hs
    cases hs
  | succ fuel =>
    cases r with
    | read o name => exact .read note fuel o name
    | alive o => exact .ask _
    | count => exact .inspect _ _ _
    | note e => exact note e
    | write | delete | allocate | referenceId => cases hr

theorem run {α : Type} (fuel : Nat) {p : Program TableCalls α} (hp : p.Looks) :
    Looking (p.run (Store.serve fuel)) := by
  induction p with
  | done a => exact Act.Preserves.pure a
  | fail e => exact Act.Preserves.raise e
  | ask r next ih =>
    obtain ⟨hr, hnext⟩ := hp
    intro s s' hs
    simp only [Program.run] at hs
    cases hrun : Store.serve fuel r s with
    | ok a s₁ =>
      rw [hrun] at hs
      have hfirst : Untouched s s₁ := serve fuel hr s s₁ (by rw [hrun]; rfl)
      exact Trans.trans hfirst (ih (.ok a) (hnext _) s₁ s' hs)
    | fault e s₁ =>
      rw [hrun] at hs
      have hfirst : Untouched s s₁ := serve fuel hr s s₁ (by rw [hrun]; rfl)
      exact Trans.trans hfirst (ih (.error e) (hnext _) s₁ s' hs)
    | breach b s₁ => simp [hrun, Outcome.state?] at hs
    | exhausted => simp [hrun, Outcome.state?] at hs

end Looking

/-! ### What is left of an assignment that fails -/

/-- The variable of the object has the value, and all else that objects have is as it was. -/
structure Overrides (s : Store) (o : ObjectRef) (name : String) (v : Value)
    (s' : Store) : Prop where
  own : ∀ object, s.objects.get? o = some object →
    s'.objects.get? o = some { object with vars := object.vars.insert name v }
  others : ∀ o' ≠ o, s'.objects.get? o' = s.objects.get? o'

variable {fuel : Nat} {s s' : Store} {o : ObjectRef} {name : String} {v : Value} {e : Fault}

theorem overrides_of_assigned (halive : (s.objects.get? o).isSome)
    (hsame : s'.objects = (s.assigning o name v).objects) : s.Overrides o name v s' where
  own object hobject := by
    rw [hsame]
    show (s.objects.assign o name v).get? o = _
    rw [s.objects.get?_assign name v halive, if_pos rfl, hobject]
    rfl
  others o' hne := by
    rw [hsame]
    show (s.objects.assign o name v).get? o' = _
    rw [s.objects.get?_assign name v halive, if_neg hne]

/-- What has come of an assignment in `s` that has failed. -/
structure WriteFails (fuel : Nat) (o : ObjectRef) (name : String) (v : Value) (s : Store)
    (e : Fault) (s' : Store) : Prop where
  deleted : s.objects.get? o = none → e = .deletedObject o ∧ s' = s
  undeclared : ∀ object, s.objects.get? o = some object → object.variable? name = none →
    e = .unknownVariable object.definition.path name ∧ s' = s
  /-- Otherwise the hook has failed that was told of it. Nothing that was done in between is taken
  back. -/
  refused : ∀ object old, s.objects.get? o = some object → object.variable? name = some old →
    ∃ hooks, object.definition.hooks = some hooks ∧
      (hooks.written o name v old).run (serve fuel) (s.assigning o name v) = .fault e s' ∧
      (s.assigning o name v).Passes s' ∧
      (s'.objects = (s.assigning o name v).objects → s.Overrides o name v s') ∧
      ((hooks.written o name v old).Looks → s.Overrides o name v s')
  /-- A script that was to assign ends with the fault, and leaves the objects so. -/
  script :
    ∀ (m : Moment) (top : Activation) (f : ScriptFrame) (callers : List Activation)
      (rest : List Value),
    m.Executes (.setVar name) top f callers → f.operands = v :: .object o :: rest →
      m.fuel = fuel + 1 →
    m.runtime.store = s → m.EndsWith e { m.runtime with store := s' }

/-- An assignment that fails changes no variable of any object, unless the object is alive, the
variable declared and the hook refuses: then that one variable has the new value, and the rest is as
the hook has left it. -/
theorem failed_write_keeps_the_rest (h : serve (fuel + 1) (.write o name v) s = .fault e s') :
    WriteFails fuel o name v s e s' := by
  have hwrite := h
  simp only [serve, write_eq] at hwrite
  refine {
    deleted := ?_
    undeclared := ?_
    refused := ?_
    script := ?_ }
  · intro hnone
    rw [s.objects.stored_of_deleted hnone] at hwrite
    cases hwrite
    exact ⟨rfl, rfl⟩
  · intro object hobject hnone
    rw [s.objects.stored_of_get? hobject, hnone] at hwrite
    cases hwrite
    exact ⟨rfl, rfl⟩
  · intro object old hobject hold
    have hstored : s.objects.stored o name = .ok (object, old) := by
      rw [s.objects.stored_of_get? hobject, hold]
    rw [hstored] at hwrite
    dsimp only at hwrite
    have hpasses : (s.assigning o name v).Passes s' :=
      (Act.Preserves.telling (Serving.serve fuel) object.definition o name v old _ s'
        (by rw [hwrite]; rfl)).passes
    have halive : (s.objects.get? o).isSome := by rw [hobject]; rfl
    cases hhooks : object.definition.hooks with
    | none =>
      simp only [telling, hhooks] at hwrite
      cases hwrite
    | some hooks =>
      simp only [telling, hhooks] at hwrite
      refine ⟨hooks, rfl, hwrite, hpasses, overrides_of_assigned halive, ?_⟩
      intro hlooks
      exact overrides_of_assigned halive (Looking.run fuel hlooks _ s' (by rw [hwrite]; rfl))
  · rintro m top f callers rest hexecutes hoperands hfuel rfl
    have hexec : { f with position := f.position + 1 }.exec top.src top.usr (.setVar name) =
        .ok (.write o name v, { f with position := f.position + 1, operands := rest }) := by
      simp only [ScriptFrame.exec, ScriptFrame.pop, hoperands, bind, Except.bind]
      rfl
    apply Moment.outcome_of_fault hexecutes.stack
    rw [hexecutes.report hexec, hfuel]
    simp only [Activation.meet, Act.bind_apply, Runtime.onStore, h]

/-! ### A hook that refuses -/

/-- A type that will not have its variables assigned. -/
def stubborn : Definition :=
  { mob (fun _ => .done ()) with
    hooks := some { Hooks.none with written := fun _ _ _ _ => .fail (.hook "refused") } }

theorem stubborn_keeps_the_rest : ∃ s',
    serve 2 (.write ⟨0, 0⟩ "armed" (.int 7)) (holding stubborn) = .fault (.hook "refused") s' ∧
      WriteFails 1 ⟨0, 0⟩ "armed" (.int 7) (holding stubborn) (.hook "refused") s' ∧
      (holding stubborn).Overrides ⟨0, 0⟩ "armed" (.int 7) s' := by
  have hwrite : serve 2 (.write ⟨0, 0⟩ "armed" (.int 7)) (holding stubborn) =
      .fault (.hook "refused") ((holding stubborn).assigning ⟨0, 0⟩ "armed" (.int 7)) := rfl
  have hfails := failed_write_keeps_the_rest hwrite
  obtain ⟨hooks, _, _, _, hoverrides, _⟩ := hfails.refused _ _ rfl rfl
  exact ⟨_, hwrite, hfails, hoverrides rfl⟩

/-- The hook touches nothing, the assignment fails, and the object has an override that it did not
have. -/
theorem refused_value_is_kept : ∃ s',
    serve 2 (.write ⟨0, 0⟩ "armed" (.int 7)) (holding stubborn) = .fault (.hook "refused") s' ∧
      (∀ hooks ∈ stubborn.hooks, ∀ s₁,
        (hooks.written ⟨0, 0⟩ "armed" (.int 7) (.int 1)).run (serve 1) s₁ =
        .fault (.hook "refused") s₁) ∧
      ((holding stubborn).objects.get? ⟨0, 0⟩).bind (fun object => object.vars["armed"]?) = none ∧
      (s'.objects.get? ⟨0, 0⟩).bind (fun object => object.vars["armed"]?) = some (.int 7) := by
  refine ⟨_, rfl, ?_, rfl, rfl⟩
  rintro hooks hhooks s₁
  cases hhooks
  rfl

end Store

end ProcEngine
