import ProcEngine.Proofs.Context.Company
import ProcEngine.Proofs.Context.Handling
import ProcEngine.Proofs.Context.Suspension
import ProcEngine.Proofs.Object.Endings
/-!
# Contexts that run out of steps

Where every activation has only so many steps of its own left, a context runs out of them however
its activations call each other: a call takes a step of the caller, and how many can wait on top of
each other is limited. What the whole stack owes that way is a number that each step lowers, whether
or not the context is suspended on the way.
-/

namespace ProcEngine

/-! ### What goes on meanwhile -/

/-- The procs and the global names are the same, and the objects have come of those that there
were. -/
structure Runtime.Evolves (rt rt' : Runtime) : Prop where
  procs : rt'.procs = rt.procs
  globals : rt'.globals = rt.globals
  objects : rt.objects.Evolves rt'.objects

namespace Runtime.Evolves

variable {rt rt' rt'' : Runtime}

theorem of_eq (hprocs : rt'.procs = rt.procs) (hglobals : rt'.globals = rt.globals)
    (hstore : rt'.objects = rt.objects) : rt.Evolves rt' :=
  ⟨hprocs, hglobals, hstore ▸ Relation.ReflTransGen.refl⟩

theorem refl (rt : Runtime) : rt.Evolves rt := of_eq rfl rfl rfl

theorem trans (h : rt.Evolves rt') (h' : rt'.Evolves rt'') : rt.Evolves rt'' where
  procs := h'.procs.trans h.procs
  globals := h'.globals.trans h.globals
  objects := Relation.ReflTransGen.trans h.objects h'.objects

instance : Std.Refl Evolves := ⟨refl⟩

instance : Trans Evolves Evolves Evolves := ⟨trans⟩

theorem upkept : Upkept Evolves where
  carried := {
    store := fun _ _ hworked => ⟨rfl, rfl, hworked.evolves⟩
    activate := fun rt p id i => by
      simp only [activate]
      split <;> exact of_eq rfl rfl rfl }
  recorded _ _ _ := of_eq rfl rfl rfl
  created _ := of_eq rfl rfl rfl
  refused _ _ _ _ h := h.trans (of_eq rfl rfl rfl)
  faulted _ _ _ _ h := h.trans (of_eq rfl rfl rfl)
  detached _ _ _ := of_eq rfl rfl rfl
  vacated _ := of_eq rfl rfl rfl

end Runtime.Evolves

theorem Context.step_ends {P : Prop} {c : Context} {top : Activation} {callers : List Activation}
    {n : Nat} {rt : Runtime} (hstack : c.stack = top :: callers) (hown : c.Own c.stack)
    (hends : (top.fetch.2.step n (run n) top.fetch.1 rt).EndsUnless P) :
    (c.step n (run n) rt).EndsUnless P := by
  have hsafe := run_safe (n + 1) hown (by simp [hstack]) rt
  simp only [step, hstack]
  cases hreport : top.fetch.2.step n (run n) top.fetch.1 rt with
  | ok q rt' =>
    obtain ⟨a, signal⟩ := q
    cases signal with
    | proceed | deferred w => trivial
    | returned => cases callers <;> trivial
    | called d =>
      simp only [proceed]
      cases hpush : push { c with stack := a :: callers } d with
      | pushed c' | overflow why => trivial
      | foreign why =>
        simp only [run, step, hstack, hreport, proceed, hpush] at hsafe
        have hoverflow : why.isOverflow := hsafe why rt' rfl
        simp only [push] at hpush
        split at hpush
        · cases hpush
          cases hoverflow
        · split at hpush <;> cases hpush
  | fault e rt' => trivial
  | breach b rt' | exhausted =>
    rw [hreport] at hends
    exact hends

theorem ContextState.of_ne_ready {s : ContextState} (h : s ≠ .ready) :
    s = .returned ∨ (∃ w, s = .deferred w) ∨ ∃ why, s = .faulted why := by
  cases s with
  | ready => exact absurd rfl h
  | deferred w => exact Or.inr (Or.inl ⟨w, rfl⟩)
  | returned => exact Or.inl rfl
  | faulted why => exact Or.inr (Or.inr ⟨why, rfl⟩)

/-- To resume the context comes to an end, by returning, by deferring or with a fault. It may be
broken off, but only where `P` holds. -/
def Context.StopsUnless (P : Prop) (c : Context) (rt : Runtime) : Prop :=
  ∃ n, (∃ v c' rt', (∀ fuel, n ≤ fuel → c.resume fuel rt = .ok (v, c') rt') ∧
      (c'.state = .returned ∨ (∃ w, c'.state = .deferred w) ∨ ∃ why, c'.state = .faulted why)) ∨
    P ∧ ∃ b rt', b.isOverflow ∧ ∀ fuel, n ≤ fuel → c.resume fuel rt = .breach b rt'

theorem Context.stopsUnless_of_ends {P : Prop} {c : Context} {rt : Runtime} {n : Nat}
    (hends : (c.resume n rt).EndsUnless P) : c.StopsUnless P rt := by
  have hlawful := Context.resume_isLawful n c rt
  have hstays (fuel : Nat) (hfuel : n ≤ fuel) : c.resume fuel rt = c.resume n rt :=
    Outcome.eq_of_le (Context.resume_mono hfuel c rt) hends.ne_exhausted
  refine ⟨n, ?_⟩
  cases hresume : c.resume n rt with
  | ok q rt' =>
    refine Or.inl ⟨q.1, q.2, rt', fun fuel hfuel => (hstays fuel hfuel).trans hresume, ?_⟩
    exact ContextState.of_ne_ready (hlawful.of_ok hresume).2.2
  | fault e rt' =>
    rw [hresume] at hlawful
    exact hlawful.elim
  | breach b rt' =>
    rw [hresume] at hends
    exact Or.inr ⟨hends.1, b, rt', hends.2, fun fuel hfuel => (hstays fuel hfuel).trans hresume⟩
  | exhausted =>
    rw [hresume] at hends
    exact hends.elim

theorem Context.Resumed.handled {between : Runtime → Runtime → Prop} {c₀ c : Context}
    {rt₀ rt : Runtime}
    {seen : List (Value × ContextState)} (h : c₀.Resumed between rt₀ seen c rt) : c₀.Handled c := by
  induction h with
  | start => exact .refl
  | others _ _ ih => exact ih
  | resume _ hresume ih => exact ih.resume hresume

/-! ### Rankings -/

/-- What a step leaves of an activation that has had `k` steps left. A waiting one has no more
whatever is returned to it, and one that is called has as many as the limit says. -/
def Signal.Spends (left : Nat → Activation → Prop) (limit k : Nat) (b : Activation) : Signal → Prop
  | .proceed | .deferred _ => ∃ j < k, left j b
  | .called d => (∃ j < k, ∀ v, left j (b.receive v)) ∧ ∃ i ≤ limit, left i d
  | .returned => True

/-- A way to tell how many steps activations have left before their last one, as long as the procs
are those of `rt₀`. -/
structure Ranking (rt₀ : Runtime) where
  left : Nat → Activation → Prop
  limit : Nat
  /-- What has to hold for a step to be broken off. -/
  strained : Prop
  ends : ∀ {k : Nat} {a : Activation} {rt : Runtime}, left k a → rt₀.Evolves rt →
    ∃ n, (a.fetch.2.step n (Context.run n) a.fetch.1 rt).EndsUnless strained
  spends : ∀ {k n : Nat} {a b : Activation} {signal : Signal} {rt rt' : Runtime}, left k a →
    rt₀.Evolves rt →
    a.fetch.2.step n (Context.run n) a.fetch.1 rt = .ok (b, signal) rt' →
      signal.Spends left limit k b

namespace Ranking

variable {rt₀ : Runtime} (r : Ranking rt₀)

/-- How many steps a step may cost, with those of everything that is called by it, where so many
more activations find room. -/
def toll : (room : Nat) → Nat
  | 0 => 1
  | room + 1 => 1 + (r.limit + 1) * toll room

/-- How many steps an activation may cost that has `k` left and has `callers` beneath it. -/
def price (maxDepth : Nat) (callers : List Activation) (k : Nat) : Nat :=
  (k + 1) * r.toll (maxDepth - (callers.length + 1))

inductive Waiting (maxDepth : Nat) : List Activation → Nat → Prop
  | nil : Waiting maxDepth [] 0
  | cons {a : Activation} {callers : List Activation} {k owed : Nat} :
    (∀ v, r.left k (a.receive v)) →
    Waiting maxDepth callers owed → Waiting maxDepth (a :: callers)
      (owed + r.price maxDepth callers k)

/-- How many steps the activations of a context have left, with those of everything that they may
call. -/
inductive Owes (c : Context) : Nat → Prop
  | intro {top : Activation} {callers : List Activation} {k owed : Nat} : c.stack = top :: callers →
    r.left k top →
    r.Waiting c.maxDepth callers owed → Owes c (owed + r.price c.maxDepth callers k)

variable {r}

theorem toll_pos (room : Nat) : 0 < r.toll room := by
  cases room with
  | zero => exact Nat.one_pos
  | succ room =>
    rw [toll]
    omega

theorem price_pos (maxDepth : Nat) (callers : List Activation) (k : Nat) :
    0 < r.price maxDepth callers k :=
  Nat.mul_pos (Nat.succ_pos k) (toll_pos _)

theorem price_lt {maxDepth j k : Nat} {callers : List Activation} (h : j < k) :
    r.price maxDepth callers j < r.price maxDepth callers k :=
  Nat.mul_lt_mul_of_pos_right (Nat.succ_lt_succ h) (toll_pos _)

/-- The step that a call takes pays for everything that is called. -/
theorem price_call_lt {maxDepth i j k : Nat} {a : Activation} {callers : List Activation}
    (hj : j < k) (hi : i ≤ r.limit) (hroom : callers.length + 1 < maxDepth) :
    r.price maxDepth callers j + r.price maxDepth (a :: callers) i <
      r.price maxDepth callers k := by
  have hmore : maxDepth - (callers.length + 1) = maxDepth - ((a :: callers).length + 1) + 1 := by
    rw [List.length_cons]
    omega
  rw [price, price, price, hmore]
  generalize maxDepth - ((a :: callers).length + 1) = room
  have hcallee : (i + 1) * r.toll room < r.toll (room + 1) := by
    have hle : (i + 1) * r.toll room ≤ (r.limit + 1) * r.toll room :=
      Nat.mul_le_mul_right _ (by omega)
    rw [toll]
    omega
  calc (j + 1) * r.toll (room + 1) + (i + 1) * r.toll room
      < (j + 1) * r.toll (room + 1) + r.toll (room + 1) := Nat.add_lt_add_left hcallee _
    _ = (j + 1 + 1) * r.toll (room + 1) := (Nat.succ_mul _ _).symm
    _ ≤ (k + 1) * r.toll (room + 1) := Nat.mul_le_mul_right _ (by omega)

namespace Owes

variable {past : List Moment} {m : Moment} {c c' : Context} {owed n : Nat}
  {rt rt' : Runtime} {v : Value}

/-- Each step of a context lowers what it owes. -/
theorem step (h : r.Owes m.context owed) (hcourse : Course past m.context)
    (hrt : rt₀.Evolves m.runtime)
    {progress : Context.Progress} (hstep : m.outcome = .ok progress rt) :
    progress.context.isFinished ∨ ∃ less < owed, r.Owes progress.context less := by
  obtain @⟨top, callers, k, owed, hstack, hleft, hwaiting⟩ := h
  have htop : top.context = m.context.id :=
    hcourse.coherent.own top (by rw [hstack]; exact List.mem_cons_self)
  have hspends {a : Activation} {signal : Signal} {rt : Runtime}
      (hreport : m.report = .ok (a, signal) rt) :
      signal.Spends r.left r.limit k a :=
        r.spends hleft hrt ((Moment.report_eq hstack).symm.trans hreport)
  cases Moment.moves_of_outcome hstack htop hstep with
  | works hreport | defers hreport =>
    obtain ⟨j, hj, ha⟩ := hspends hreport
    exact Or.inr ⟨_, Nat.add_lt_add_left (price_lt hj) owed, .intro rfl ha hwaiting⟩
  | ends | faults => exact Or.inl rfl
  | returns hreport hcallers =>
    subst hcallers
    cases hwaiting with
    | cons hcaller hwaiting =>
      exact Or.inr ⟨_, Nat.lt_add_of_pos_right (price_pos _ _ _), .intro rfl (hcaller _) hwaiting⟩
  | @calls a d rt hreport hroom =>
    obtain ⟨⟨j, hj, ha⟩, i, hi, hd⟩ := hspends hreport
    refine Or.inr ⟨_, ?_, .intro rfl hd (.cons ha hwaiting)⟩
    show owed + r.price m.context.maxDepth callers j + r.price m.context.maxDepth (a :: callers) i <
      _
    rw [Nat.add_assoc]
    exact Nat.add_lt_add_left (price_call_lt hj hi hroom) owed

theorem pos (h : r.Owes c owed) : 0 < owed := by
  cases h
  exact Nat.add_pos_right _ (price_pos _ _ _)

theorem step_ends (h : r.Owes c owed) (hcourse : Course past c) (hrt : rt₀.Evolves rt) :
    ∃ n, (c.step n (Context.run n) rt).EndsUnless r.strained := by
  cases h with
  | intro hstack hleft hwaiting =>
    exact (r.ends hleft hrt).imp fun n hends => Context.step_ends hstack hcourse.coherent.own hends

theorem runs_on (h : r.Owes m.context owed) (hcourse : Course past m.context)
    (hunfinished : ¬ m.context.isFinished)
    (hrt : rt₀.Evolves m.runtime) (hstep : m.outcome = .ok (.running c) rt) :
    (∃ less < owed, r.Owes c less) ∧ Course (m :: past) c ∧ ¬ c.isFinished ∧ rt₀.Evolves rt := by
  have hunfinished' : ¬ c.isFinished := Context.unfinished_of_running hunfinished hstep
  refine ⟨(h.step hcourse hrt hstep).resolve_left hunfinished', hcourse.step hunfinished hstep,
    hunfinished', ?_⟩
  exact hrt.trans (Runtime.Evolves.upkept.of_running (Runtime.Evolves.upkept.run _) hcourse
    hunfinished hstep)

/-- A run comes to an end too, since a context cannot go on for ever. -/
theorem run_ends (h : r.Owes c owed) (hcourse : Course past c) (hunfinished : ¬ c.isFinished)
    (hrt : rt₀.Evolves rt) : ∃ n, (c.run n rt).EndsUnless r.strained := by
  induction owed using Nat.strongRecOn generalizing past c rt with
  | ind owed ih =>
    obtain ⟨n, hends⟩ := h.step_ends hcourse hrt
    cases hstep : c.step n (Context.run n) rt with
    | ok progress rt₁ =>
      cases progress with
      | stopped v c₁ =>
        refine ⟨n + 1, ?_⟩
        simp only [Context.run, hstep]
        trivial
      | running c₁ =>
        obtain ⟨⟨less, hless, howes⟩, hcourse₁, hunfinished₁, hrt₁⟩ :=
          runs_on (m := ⟨c, n, rt⟩) h hcourse hunfinished hrt hstep
        obtain ⟨n', hends'⟩ := ih less hless howes hcourse₁ hunfinished₁ hrt₁
        obtain ⟨n, hrun⟩ := Context.run_of_running hstep hends'.ne_exhausted
        exact ⟨n, hrun ▸ hends'⟩
    | fault e rt₁ | breach b rt₁ =>
      rw [hstep] at hends
      refine ⟨n + 1, ?_⟩
      simp only [Context.run, hstep]
      exact hends
    | exhausted =>
      rw [hstep] at hends
      exact hends.elim

theorem run (h : r.Owes c owed) (hcourse : Course past c) (hunfinished : ¬ c.isFinished)
    (hrt : rt₀.Evolves rt)
    (hrun : c.run n rt = .ok (v, c') rt') : c'.isFinished ∨ ∃ less < owed, r.Owes c' less := by
  induction n generalizing past c rt owed with
  | zero => cases hrun
  | succ n ih =>
    obtain hstop | ⟨c₁, rt₁, hstep, hrun⟩ := Context.run_ok hrun
    · exact step (m := ⟨c, n, rt⟩) h hcourse hrt hstop
    · obtain ⟨⟨less, hless, howes⟩, hcourse₁, hunfinished₁, hrt₁⟩ :=
        runs_on (m := ⟨c, n, rt⟩) h hcourse hunfinished hrt hstep
      refine (ih howes hcourse₁ hunfinished₁ hrt₁ hrun).imp_right ?_
      rintro ⟨less', hless', howes'⟩
      exact ⟨less', Nat.lt_trans hless' hless, howes'⟩

end Owes

/-! ### From resume to resume -/

section Resumed

variable {c₀ c : Context} {owed : Nat} {rt₁ rt : Runtime} {seen : List (Value × ContextState)}
  {past : List Moment} (h : r.Owes c₀ owed) (hcourse : Course past c₀) (hrt : rt₀.Evolves rt₁)
include h hcourse hrt

/-- Every resume lowers what the context owes, whatever goes on in between. -/
theorem Owes.resumed (hresumed : c₀.Resumed Runtime.Evolves rt₁ seen c rt) :
    rt₀.Evolves rt ∧ (∃ past, Course past c) ∧
    (c.isFinished ∨ ∃ less, less + seen.length ≤ owed ∧ r.Owes c less) := by
  induction hresumed with
  | start => exact ⟨hrt, ⟨past, hcourse⟩, Or.inr ⟨owed, Nat.le_refl owed, h⟩⟩
  | others _ hothers ih => exact ⟨ih.1.trans hothers, ih.2⟩
  | @resume n seen c c' rt rt' v hbefore hresume ih =>
    obtain ⟨hrt, ⟨past, hcourse⟩, howes⟩ := ih
    by_cases hfinished : c.isFinished
    · rw [Context.resume_finished hfinished] at hresume
      cases hresume
      exact ⟨hrt, ⟨past, hcourse⟩, Or.inl hfinished⟩
    · obtain ⟨hcourse', hevolves⟩ :=
        (Runtime.Evolves.upkept.resume n c rt ⟨hfinished, past, hcourse⟩).of_ok hresume
      refine ⟨hrt.trans ⟨hevolves.procs, hevolves.globals, hevolves.objects⟩, hcourse', ?_⟩
      obtain ⟨less, hle, howes⟩ := howes.resolve_left hfinished
      rw [Context.resume_eq_run hfinished] at hresume
      refine (howes.run hcourse hfinished hrt hresume).imp_right ?_
      rintro ⟨less', hless, howes'⟩
      refine ⟨less', ?_, howes'⟩
      rw [List.length_append, List.length_singleton]
      omega

/-- After as many resumes as the context has owed steps it is finished, and until then each resume
comes to an end. -/
theorem Owes.runs_out (hresumed : c₀.Resumed Runtime.Evolves rt₁ seen c rt) :
    (owed ≤ seen.length → c.isFinished) ∧ c.StopsUnless r.strained rt := by
  obtain ⟨hrt, ⟨past, hcourse⟩, howes⟩ := h.resumed hcourse hrt hresumed
  constructor
  · intro hmany
    obtain hfinished | ⟨less, hle, howes⟩ := howes
    · exact hfinished
    · have hpos := howes.pos
      omega
  · by_cases hfinished : c.isFinished
    · exact Context.stopsUnless_of_ends (n := 0)
        (by rw [Context.resume_finished hfinished]; trivial)
    · obtain ⟨less, _, howes⟩ := howes.resolve_left hfinished
      obtain ⟨n, hends⟩ := howes.run_ends hcourse hfinished hrt
      exact Context.stopsUnless_of_ends (n := n)
        (by rw [Context.resume_eq_run hfinished]; exact hends)

end Resumed

end Ranking

end ProcEngine
