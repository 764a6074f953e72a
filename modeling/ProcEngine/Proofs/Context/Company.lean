import ProcEngine.Proofs.Context.Seclusion
import ProcEngine.Proofs.Fuel
/-!
# In company and alone

A context is resumed over and over, and others work in between. What its resumes give, and the
states that they leave it in, are the same for a secluded context whatever the others do.
-/

namespace ProcEngine

/-- `c₀` has been resumed in `rt₀` and has given `seen`, each value with the state that the context
stopped in; `c` and `rt` are left. Whenever it is not being resumed, `between` may happen to the
runtime. -/
inductive Context.Resumed (between : Runtime → Runtime → Prop) (c₀ : Context) (rt₀ : Runtime) :
    List (Value × ContextState) → Context → Runtime → Prop
  | start : Resumed between c₀ rt₀ [] c₀ rt₀
  | others {seen : List (Value × ContextState)} {c : Context} {rt rt' : Runtime} :
    Resumed between c₀ rt₀ seen c rt →
    between rt rt' → Resumed between c₀ rt₀ seen c rt'
  | resume {n : Nat} {seen : List (Value × ContextState)} {c c' : Context} {rt rt' : Runtime}
    {v : Value} :
    Resumed between c₀ rt₀ seen c rt → c.resume n rt = .ok (v, c') rt' →
    Resumed between c₀ rt₀ (seen ++ [(v, c'.state)]) c' rt'

namespace Context

variable {rt₀ rt rt' rt₁ rt₁' : Runtime} {c c₀ c' : Context}
  {seen seen' : List (Value × ContextState)}
  {between between' : Runtime → Runtime → Prop}

/-- Two resumes of a secluded context come to the same, if both come to an end. -/
theorem Secluded.resume_unique (h : c.Secluded rt₀) (hrt : rt₀.Steady rt) (hrt' : rt₀.Steady rt')
    {n n' : Nat} {q q' : Value × Context} (hresume : c.resume n rt = .ok q rt₁)
    (hresume' : c.resume n' rt' = .ok q' rt₁') :
    q = q' := by
  have hmore :=
    Outcome.eq_of_le (resume_mono (Nat.le_max_left n n') c rt) (by rw [hresume]; exact nofun)
  have hmore' :=
    Outcome.eq_of_le (resume_mono (Nat.le_max_right n n') c rt') (by rw [hresume']; exact nofun)
  have hsame := (resume_blind (max n n') h).same hrt hrt'
  rw [hmore, hmore', hresume, hresume'] at hsame
  cases hsame
  rfl

/-- A secluded context that can be resumed in one runtime can be resumed in any other with the same
code. -/
theorem Secluded.resume_again (h : c.Secluded rt₀) (hrt : rt₀.Steady rt) (hrt' : rt₀.Steady rt')
    {n : Nat} {q : Value × Context} (hresume : c.resume n rt = .ok q rt₁) :
    ∃ rt₁', c.resume n rt' = .ok q rt₁' := by
  have hsame := (resume_blind n h).same hrt hrt'
  rw [hresume] at hsame
  cases hagain : c.resume n rt' <;> rw [hagain] at hsame <;> cases hsame
  exact ⟨_, rfl⟩

namespace Resumed

/-- The last resume. -/
theorem last {x : Value × ContextState} (h : c₀.Resumed between rt₀ (seen ++ [x]) c rt) :
    ∃ (n : Nat) (c₁ : Context) (rt₁ rt₂ : Runtime), c₀.Resumed between rt₀ seen c₁ rt₁ ∧
      c₁.resume n rt₁ = .ok (x.1, c) rt₂ ∧ x.2 = c.state := by
  generalize hall : seen ++ [x] = all at h
  induction h with
  | start => simp at hall
  | others _ _ ih => exact ih hall
  | resume hbefore hresume ih =>
    obtain ⟨rfl, hx⟩ := List.append_inj' hall rfl
    cases hx
    exact ⟨_, _, _, _, hbefore, hresume, rfl⟩

theorem of_nil (h : c₀.Resumed between rt₀ [] c rt) : c = c₀ := by
  generalize hall : ([] : List (Value × ContextState)) = all at h
  induction h with
  | start => rfl
  | others _ _ ih => exact ih hall
  | resume => simp at hall

section Steady

variable {base : Runtime} (hsecluded : c₀.Secluded base)
  (hbetween : ∀ {rt rt'}, between rt rt' → rt.Steady rt')
include hsecluded hbetween

/-- A secluded context stays so, and so does the code. -/
theorem secluded (hrt₀ : base.Steady rt₀) (h : c₀.Resumed between rt₀ seen c rt) :
    c.Secluded base ∧ base.Steady rt := by
  induction h with
  | start => exact ⟨hsecluded, hrt₀⟩
  | others _ hothers ih => exact ⟨ih.1, ih.2.trans (hbetween hothers)⟩
  | @resume n _ _ _ _ _ _ _ hresume ih => exact ((resume_blind n ih.1).gives ih.2 hresume).symm

/-- What is seen in company is seen alone too. -/
theorem alone (hrt₀ : base.Steady rt₀) (h : c₀.Resumed between rt₀ seen c rt) :
    ∃ rt', c₀.Resumed Eq rt₀ seen c rt' := by
  induction h with
  | start => exact ⟨rt₀, .start⟩
  | others _ _ ih => exact ih
  | resume hbefore hresume ih =>
    obtain ⟨rt₁, hlone⟩ := ih
    obtain ⟨hleft, hrt⟩ := hbefore.secluded hsecluded hbetween hrt₀
    have hrt₁ := (hlone.secluded hsecluded .of_idle hrt₀).2
    obtain ⟨rt₂, hagain⟩ := hleft.resume_again hrt hrt₁ hresume
    exact ⟨rt₂, .resume hlone hagain⟩

/-- As many resumes see the same, and leave the same. -/
theorem unique (hbetween' : ∀ {rt rt'}, between' rt rt' → rt.Steady rt') (hrt₀ : base.Steady rt₀)
    (hrt₁ : base.Steady rt₁) (h : c₀.Resumed between rt₀ seen c rt)
    (h' : c₀.Resumed between' rt₁ seen' c' rt')
    (hlength : seen.length = seen'.length) : seen = seen' ∧ c = c' := by
  induction h generalizing seen' c' rt' with
  | start =>
    obtain rfl := List.length_eq_zero_iff.mp hlength.symm
    exact ⟨rfl, h'.of_nil.symm⟩
  | others _ _ ih => exact ih h' hlength
  | @resume n seen c₁ c rt₂ rt₃ v hbefore hresume ih =>
    obtain ⟨seen', x, rfl⟩ : ∃ l x, seen' = l ++ [x] := by
      refine ⟨seen'.dropLast, seen'.getLast ?_, (List.dropLast_concat_getLast _).symm⟩
      rintro rfl
      simp at hlength
    obtain ⟨n', c₁', rt₂', rt₃', hbefore', hresume', hstate⟩ := h'.last
    obtain ⟨rfl, rfl⟩ := ih hbefore' (by simpa using hlength)
    obtain ⟨hleft, hrt₂⟩ := hbefore.secluded hsecluded hbetween hrt₀
    have hrt₂' := (hbefore'.secluded hsecluded hbetween' hrt₁).2
    cases hleft.resume_unique hrt₂ hrt₂' hresume hresume'
    exact ⟨by rw [← hstate], rfl⟩

end Steady

end Resumed

end Context

/-! ### Calls -/

namespace Runtime

/-- `p` has been called in `rt` in a context of its own, which is refused its first activation if
contexts may not hold any, or else is resumed; that has given `seen`, and `c` and `rt'` are left. -/
inductive Called (between : Runtime → Runtime → Prop) (rt : Runtime) (p : ProcRef)
    (i : Invocation) :
    List (Value × ContextState) → Context → Runtime → Prop
  | refused {seen : List (Value × ContextState)} {c : Context} {rt' : Runtime} : rt.maxDepth = 0 →
    (rt.abort rt.newContext.1 (.stackOverflow rt.maxDepth)).1.Resumed between
      (rt.refused p i) seen c rt' →
    Called between rt p i ((.null, .faulted (.stackOverflow rt.maxDepth)) :: seen) c rt'
  | opened {seen : List (Value × ContextState)} {c : Context} {rt' : Runtime} : rt.maxDepth ≠ 0 →
    (rt.opened p i).1.Resumed between (rt.opened p i).2 seen c rt' →
      Called between rt p i seen c rt'

variable {between : Runtime → Runtime → Prop} {rt rt' rt'' : Runtime} {p : ProcRef} {i : Invocation}
  {c c' : Context} {seen seen' : List (Value × ContextState)}

theorem Called.others (h : rt.Called between p i seen c rt') (hothers : between rt' rt'') :
    rt.Called between p i seen c rt'' := by
  cases h with
  | refused hdepth h => exact .refused hdepth (h.others hothers)
  | opened hdepth h => exact .opened hdepth (h.others hothers)

theorem Called.resume (h : rt.Called between p i seen c rt') {n : Nat} {v : Value}
    (hresume : c.resume n rt' = .ok (v, c') rt'') :
    rt.Called between p i (seen ++ [(v, c'.state)]) c' rt'' := by
  cases h with
  | refused hdepth h => exact .refused hdepth (h.resume hresume)
  | opened hdepth h => exact .opened hdepth (h.resume hresume)

theorem Secluded.opened (h : rt.Secluded p) (i : Invocation) : (rt.opened p i).1.Secluded rt := by
  intro a ha
  obtain rfl := List.mem_singleton.mp ha
  exact h.activate (.of_eq rfl rfl) _ i

theorem Steady.opened (rt : Runtime) (p : ProcRef) (i : Invocation) : rt.Steady (rt.opened p i).2 :=
  Steady.upkept.opened rt p i

theorem Steady.refused (rt : Runtime) (p : ProcRef) (i : Invocation) : rt.Steady (rt.refused p i) :=
  (Steady.opened rt p i).trans (.of_eq rfl rfl)

section Secluded

variable (h : rt.Secluded p) (hbetween : ∀ {rt rt'}, between rt rt' → rt.Steady rt')
include h hbetween

theorem Called.secluded (hcalled : rt.Called between p i seen c rt') : c.Secluded rt ∧
    rt.Steady rt' := by
  cases hcalled with
  | refused _ hresumed => exact hresumed.secluded (.nil rfl) hbetween (.refused rt p i)
  | opened _ hresumed => exact hresumed.secluded (h.opened i) hbetween (.opened rt p i)

theorem Called.alone (hcalled : rt.Called between p i seen c rt') :
    ∃ rt'', rt.Called Eq p i seen c rt'' := by
  cases hcalled with
  | refused hdepth hresumed =>
    obtain ⟨rt'', hlone⟩ := hresumed.alone (.nil rfl) hbetween (.refused rt p i)
    exact ⟨rt'', .refused hdepth hlone⟩
  | opened hdepth hresumed =>
    obtain ⟨rt'', hlone⟩ := hresumed.alone (h.opened i) hbetween (.opened rt p i)
    exact ⟨rt'', .opened hdepth hlone⟩

theorem Called.unique {between' : Runtime → Runtime → Prop}
    (hbetween' : ∀ {rt rt'}, between' rt rt' → rt.Steady rt')
    (hcalled : rt.Called between p i seen c rt') (hcalled' : rt.Called between' p i seen' c' rt'')
    (hlength : seen.length = seen'.length) : seen = seen' ∧ c = c' := by
  cases hcalled with
  | refused hdepth hresumed =>
    cases hcalled' with
    | refused _ hresumed' =>
      have hrefused := Steady.refused rt p i
      obtain ⟨rfl, rfl⟩ := hresumed.unique (.nil rfl) hbetween hbetween' hrefused hrefused hresumed'
        (by simpa using hlength)
      exact ⟨rfl, rfl⟩
    | opened hdepth' => exact absurd hdepth hdepth'
  | opened hdepth hresumed =>
    cases hcalled' with
    | refused hdepth' => exact absurd hdepth' hdepth
    | opened _ hresumed' =>
      have hopened := Steady.opened rt p i
      exact hresumed.unique (h.opened i) hbetween hbetween' hopened hopened hresumed' hlength

end Secluded

end Runtime

end ProcEngine
