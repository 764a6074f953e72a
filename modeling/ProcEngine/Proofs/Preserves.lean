import ProcEngine.Program
/-!
# What execution preserves

`Act.Preserves R x` says that the state that `x` starts from and the one that it ends in are related
by `R`. Where `R` is a preorder, sequences and whole programs preserve what their parts do.
`Outcome.Gives Q x` says of what never faults that `Q` holds of whatever it gives.
-/

namespace ProcEngine

variable {σ α β : Type}

theorem Except.of_bind_eq_ok {ε α β : Type} {x : Except ε α} {f : α → Except ε β} {b : β}
    (h : x >>= f = .ok b) :
    ∃ a, x = .ok a ∧ f a = .ok b := by
  cases x with
  | error e => cases h
  | ok a => exact ⟨a, rfl, h⟩

theorem Act.of_bind_eq_ok {x : Act σ α} {f : α → Act σ β} {s s' : σ} {b : β}
    (h : (x >>= f) s = .ok b s') :
    ∃ a s₁, x s = .ok a s₁ ∧ f a s₁ = .ok b s' := by
  rw [Act.bind_apply] at h
  cases hrun : x s with
  | ok a s₁ =>
    rw [hrun] at h
    exact ⟨a, s₁, rfl, h⟩
  | fault e s₁ | breach e s₁ | exhausted =>
    rw [hrun] at h
    cases h

theorem Act.bind_assoc {γ : Type} (x : Act σ α) (f : α → Act σ β) (g : β → Act σ γ) :
    x >>= f >>= g = x >>= fun a => f a >>= g := by
  funext s
  simp only [bind_apply]
  cases x s <;> rfl

/-- What comes next counts only where it is come to. -/
theorem Act.bind_congr {x : Act σ α} {f g : α → Act σ β} {s : σ}
    (h : ∀ a s', x s = .ok a s' → f a s' = g a s') :
    (x >>= f) s = (x >>= g) s := by
  simp only [bind_apply]
  cases hrun : x s with
  | ok a s' => exact h a s' hrun
  | fault e s' | breach b s' | exhausted => rfl

/-- What is needed is there where one goes on. -/
theorem Act.of_need {p : Prop} [Decidable p] {b : Breach} {x : Act σ α} {s s' : σ} {a : α}
    (h : (need p b >>= fun _ => x) s = .ok a s') : p ∧ x s = .ok a s' := by
  rw [need_bind] at h
  split at h
  · exact ⟨‹p›, h⟩
  · cases h

theorem Act.fault_of_bind {x : Act σ α} {f : α → Act σ β} {s s' : σ} {e : Fault}
    (h : (x >>= f) s = .fault e s') : x s = .fault e s' ∨ ∃ a s₁, x s = .ok a s₁ ∧
      f a s₁ = .fault e s' := by
  rw [Act.bind_apply] at h
  cases hrun : x s with
  | ok a s₁ =>
    rw [hrun] at h
    exact Or.inr ⟨a, s₁, rfl, h⟩
  | fault e' s₁ =>
    rw [hrun] at h
    cases h
    exact Or.inl rfl
  | breach b s₁ =>
    rw [hrun] at h
    cases h
  | exhausted =>
    rw [hrun] at h
    cases h

/-- The state in which one can go on after the execution. -/
def Outcome.state? : Outcome σ α → Option σ
  | ok _ s | fault _ s => some s
  | breach .. | exhausted => none

/-- The state that is left by the execution, also where it breaks off. -/
def Outcome.remains? : Outcome σ α → Option σ
  | ok _ s | fault _ s | breach _ s => some s
  | exhausted => none

namespace Act

theorem remains?_bind_pure (x : Act σ α) (f : α → β) (s : σ) :
    ((x >>= fun a => Pure.pure (f a)) s).remains? = (x s).remains? := by
  rw [bind_apply]
  cases x s <;> rfl

def Preserves (R : σ → σ → Prop) (x : Act σ α) : Prop := ∀ s s', (x s).state? = some s' → R s s'

namespace Preserves

variable {R : σ → σ → Prop}

theorem and {R' : σ → σ → Prop} {x : Act σ α} (h : Preserves R x) (h' : Preserves R' x) :
    Preserves (fun s s' => R s s' ∧ R' s s') x := fun s s' hs => ⟨h s s' hs, h' s s' hs⟩

section Refl

variable [Std.Refl R]

theorem pure (a : α) : Preserves R (Pure.pure a : Act σ α) := by
  intro s s' hs
  cases hs
  exact Std.Refl.refl s

theorem raise (e : Fault) : Preserves R (Act.raise e : Act σ α) := by
  intro s s' hs
  cases hs
  exact Std.Refl.refl s

theorem get : Preserves R (Act.get : Act σ σ) := by
  intro s s' hs
  cases hs
  exact Std.Refl.refl s

theorem lift (x : Except Fault α) : Preserves R (liftM x : Act σ α) := by
  intro s s' hs
  cases x <;> cases hs <;> exact Std.Refl.refl s

theorem need (p : Prop) [Decidable p] (b : Breach) : Preserves R (Act.need p b : Act σ Unit) := by
  intro s s' hs
  simp only [Act.need] at hs
  split at hs <;> cases hs
  exact Std.Refl.refl s

/-- What only looks at the state leaves it as it is. -/
theorem inspect (p : σ → Prop) [DecidablePred p] (b : Breach) (f : σ → α) :
    Preserves R (do let s ← Act.get; Act.need (p s) b; return f s) := by
  intro s s' hs
  rw [Act.get_bind, Act.need_bind] at hs
  split at hs <;> cases hs
  exact Std.Refl.refl s

end Refl

variable [Trans R R R]

theorem bind {x : Act σ α} {f : α → Act σ β} (hx : Preserves R x) (hf : ∀ a, Preserves R (f a)) :
    Preserves R (x >>= f) := by
  intro s s' hs
  rw [Act.bind_apply] at hs
  cases hrun : x s with
  | ok a s₁ =>
    rw [hrun] at hs
    exact Trans.trans (hx s s₁ (by rw [hrun]; rfl)) (hf a s₁ s' hs)
  | fault e s₁ =>
    rw [hrun] at hs
    exact hx s s' (by rw [hrun]; exact hs)
  | breach b s₁ => simp [hrun, Outcome.state?] at hs
  | exhausted => simp [hrun, Outcome.state?] at hs

theorem run [Std.Refl R] {i : Interface} {serve : (r : i.Request) → Act σ (i.Answer r)}
    (h : ∀ r, Preserves R (serve r)) (p : Program i α) : Preserves R (p.run serve) := by
  induction p with
  | done a => exact pure a
  | fail e => exact raise e
  | ask r next ih =>
    intro s s' hs
    simp only [Program.run] at hs
    cases hrun : serve r s with
    | ok a s₁ =>
      rw [hrun] at hs
      exact Trans.trans (h r s s₁ (by rw [hrun]; rfl)) (ih (.ok a) s₁ s' hs)
    | fault e s₁ =>
      rw [hrun] at hs
      exact Trans.trans (h r s s₁ (by rw [hrun]; rfl)) (ih (.error e) s₁ s' hs)
    | breach b s₁ => simp [hrun, Outcome.state?] at hs
    | exhausted => simp [hrun, Outcome.state?] at hs

end Preserves

end Act

/-! ### What execution gives -/

def Outcome.Gives (Q : α → σ → Prop) : Outcome σ α → Prop
  | ok a s => Q a s
  | fault .. => False
  | breach .. | exhausted => True

theorem Outcome.Gives.mono {Q Q' : α → σ → Prop} {x : Outcome σ α} (h : x.Gives Q)
    (hq : ∀ a s, Q a s → Q' a s) :
    x.Gives Q' := by
  cases x with
  | ok a s => exact hq a s h
  | fault e s => exact h
  | breach b s => trivial
  | exhausted => trivial

theorem Outcome.Gives.and {Q Q' : α → σ → Prop} {x : Outcome σ α} (h : x.Gives Q)
    (h' : x.Gives Q') :
    x.Gives fun a s => Q a s ∧ Q' a s := by
  cases x with
  | ok a s => exact ⟨h, h'⟩
  | fault e s => exact h
  | breach b s => trivial
  | exhausted => trivial

/-- What is given is what comes out. -/
theorem Outcome.Gives.result {Q : α → σ → Prop} {x : Outcome σ α} (h : x.Gives Q) :
    x.Gives fun a s => x = .ok a s := by
  cases x with
  | ok a s => rfl
  | fault e s => exact h
  | breach b s => trivial
  | exhausted => trivial

theorem Outcome.Gives.of_ok {Q : α → σ → Prop} {x : Outcome σ α} (h : x.Gives Q) {a : α} {s : σ}
    (hx : x = .ok a s) :
    Q a s := by
  rw [hx] at h
  exact h

theorem Act.Preserves.gives {R : σ → σ → Prop} {Q : α → σ → Prop} {x : Act σ α} {s : σ}
    (h : Preserves R x) (hgives : (x s).Gives Q) : (x s).Gives fun a s' => Q a s' ∧ R s s' := by
  have hleft := h s
  cases hrun : x s with
  | ok a s' =>
    rw [hrun] at hleft
    exact ⟨hgives.of_ok hrun, hleft s' rfl⟩
  | fault e s' =>
    rw [hrun] at hgives
    exact hgives
  | breach b s' => trivial
  | exhausted => trivial

theorem Act.gives_bind {Q : α → σ → Prop} {Q' : β → σ → Prop} {x : Act σ α}
    {f : α → Act σ β} {s : σ}
    (h : (x s).Gives Q) (hf : ∀ a s', Q a s' → (f a s').Gives Q') : ((x >>= f) s).Gives Q' := by
  rw [Act.bind_apply]
  cases hrun : x s with
  | ok a s' => exact hf a s' (h.of_ok hrun)
  | fault e s' =>
    rw [hrun] at h
    exact h
  | breach b s' => trivial
  | exhausted => trivial

end ProcEngine
