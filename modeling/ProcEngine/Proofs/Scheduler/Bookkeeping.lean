import ProcEngine.Proofs.Carried
import ProcEngine.Proofs.Context.Opening
import ProcEngine.Proofs.Scheduler.Ledger
/-!
# Running keeps the books

Whatever contexts run, in whatever nesting, the books of every scheduler stay in order: a context
that is created on the way is active until it stops, and is adrift from then on unless it is
finished.
-/

namespace ProcEngine

open Chronicle

variable {α : Type}

/-- The books of a scheduler and of a runtime. -/
abbrev Books (active : List ContextId) (s : Scheduler) (rt : Runtime) : Prop :=
  Ledger active rt.detached.toList s rt.contexts rt.chronicle

/-- What comes of a chronicle while contexts run. -/
def Milestone.IsRun : Milestone → Prop
  | .created _ | .stopped .. => True
  | _ => False

/-- What holds of any runtime and one that comes of running something in it. -/
structure Keeps (rt rt' : Runtime) : Prop where
  books : ∀ active s, Books active s rt → Books active s rt'
  depth : rt'.maxDepth = rt.maxDepth
  shallow : rt.maxDepth = 0 → rt'.detached = rt.detached
  adds : ∃ log, rt'.chronicle = log ++ rt.chronicle ∧ ∀ m ∈ log, m.IsRun
  contexts : rt.contexts ≤ rt'.contexts

namespace Keeps

theorem refl (rt : Runtime) : Keeps rt rt where
  books _ _ h := h
  depth := rfl
  shallow _ := rfl
  adds := ⟨[], rfl, by simp⟩
  contexts := Nat.le_refl _

theorem trans {rt rt' rt'' : Runtime} (h : Keeps rt rt') (h' : Keeps rt' rt'') : Keeps rt rt'' where
  books active s hb := h'.books active s (h.books active s hb)
  depth := h'.depth.trans h.depth
  shallow hd := (h'.shallow (h.depth.trans hd)).trans (h.shallow hd)
  adds := by
    obtain ⟨log, hlog, hrun⟩ := h.adds
    obtain ⟨log', hlog', hrun'⟩ := h'.adds
    refine ⟨log' ++ log, by rw [hlog', hlog, List.append_assoc], fun m hm => ?_⟩
    exact (List.mem_append.mp hm).elim (hrun' m) (hrun m)
  contexts := Nat.le_trans h.contexts h'.contexts

instance : Std.Refl Keeps := ⟨refl⟩

instance : Trans Keeps Keeps Keeps := ⟨trans⟩

/-- Nothing is booked that contexts do to objects and marks. -/
theorem of_eq {rt rt' : Runtime} (hcontexts : rt'.contexts = rt.contexts)
    (hdetached : rt'.detached = rt.detached)
    (hdepth : rt'.maxDepth = rt.maxDepth) (hlog : rt'.chronicle = rt.chronicle) : Keeps rt rt' where
  books active s h := by
    rw [Books, hcontexts, hdetached, hlog]
    exact h
  depth := hdepth
  shallow _ := hdetached
  adds := ⟨[], hlog, by simp⟩
  contexts := Nat.le_of_eq hcontexts.symm

theorem tell (rt : Runtime) (e : Event) : Keeps rt (rt.tell e) := of_eq rfl rfl rfl rfl

theorem activate (rt : Runtime) (p : ProcRef) (id : ContextId) (i : Invocation) :
    Keeps rt (rt.activate p id i).2 := by
  simp only [Runtime.activate]
  cases (rt.proc p).mark with
  | none => exact refl rt
  | some label => exact of_eq rfl rfl rfl rfl

end Keeps

abbrev Keeping (x : Act Runtime α) : Prop := Act.Preserves Keeps x

/-- Keeps the books and stops the context that it is given. -/
def Drive.IsLawful (drive : Drive) : Prop :=
  ∀ c rt, (drive c rt).Gives fun q rt' => Keeps rt rt' ∧ q.2.id = c.id ∧ q.2.state ≠ .ready

/-- Nothing that is done to objects and marks is booked. -/
theorem Keeps.carried : Carried Keeps where
  store _ _ _ := of_eq rfl rfl rfl rfl
  activate := activate

/-! ### Contexts of their own -/

/-- A context that has stopped is booked as such. -/
theorem Ledger.detach {active : List ContextId} {s : Scheduler} {rt : Runtime} {c : Context}
    (h : Books (c.id :: active) s rt) (hready : c.state ≠ .ready) :
    Books active s (rt.leave c) := by
  have hstopped := h.stopped hready
  rw [Runtime.leave]
  split at hstopped
  · rename_i hfinished
    rw [if_pos hfinished]
    exact hstopped
  · rename_i hunfinished
    rw [if_neg hunfinished]
    refine hstopped.perm ?_
    simp only [Runtime.detach, Runtime.record, Array.toList_push]
    exact (List.perm_append_singleton c _).symm

/-- What is known of a new context that runs: everything that goes on meanwhile keeps the books with
it. -/
theorem Keeps.of_newContext {rt rt₁ : Runtime} {c : Context} (hready : c.state ≠ .ready)
    (hid : c.id = rt.contexts + 1) (hran : Keeps rt.newContext.2 rt₁)
    (hshallow : rt.maxDepth = 0 → c.isFinished) :
    Keeps rt (rt₁.leave c) where
  books active s h := by
    refine Ledger.detach ?_ hready
    rw [hid]
    exact hran.books _ s h.created
  depth := by
    rw [Runtime.leave]
    split <;> exact hran.depth
  shallow hd := by
    rw [Runtime.leave, if_pos (hshallow hd)]
    exact hran.shallow hd
  adds := by
    obtain ⟨log, hlog, hrun⟩ := hran.adds
    have hsame : (rt₁.leave c).chronicle = .stopped c.id c.state :: rt₁.chronicle := by
      rw [Runtime.leave]
      split <;> rfl
    refine ⟨.stopped c.id c.state :: (log ++ [.created (rt.contexts + 1)]), ?_, fun m hm => ?_⟩
    · rw [hsame, hlog, List.cons_append, List.append_assoc]
      rfl
    · simp only [List.mem_cons, List.mem_append, List.mem_nil_iff, or_false] at hm
      obtain rfl | hm | rfl := hm
      · trivial
      · exact hrun m hm
      · trivial
  contexts := by
    have hmore := hran.contexts
    rw [Runtime.leave]
    split <;> exact Nat.le_of_succ_le hmore

theorem Keeps.opened (rt : Runtime) (p : ProcRef) (i : Invocation) :
    Keeps rt.newContext.2 (rt.opened p i).2 :=
  activate rt.newContext.2 p rt.newContext.1.id i

namespace Keeping

variable {drive : Drive} (hdrive : drive.IsLawful)
include hdrive

theorem callWith (p : ProcRef) (i : Invocation) : Keeping (Runtime.callWith drive p i) := by
  refine Runtime.preserves_callWith (fun rt hdepth => ?_) fun rt hdepth => ?_
  · let c : Context := { rt.newContext.1 with state := .faulted (.stackOverflow rt.maxDepth) }
    exact Keeps.of_newContext (c := c)
      (by simp [c]) rfl ((Keeps.opened rt p i).trans (Keeps.tell _ _)) fun _ => rfl
  · refine (hdrive (rt.opened p i).1 (rt.opened p i).2).mono fun q rt' ⟨hkept, hid, hready⟩ => ?_
    exact Keeps.of_newContext hready hid ((Keeps.opened rt p i).trans hkept) fun hzero =>
      absurd hzero hdepth

theorem serve (fuel : Nat) (r : HostRequest) : Keeping (Runtime.serve fuel drive r) :=
  Keeps.carried.serve (callWith hdrive) fuel r

theorem step (fuel : Nat) (a : Activation) (instr : Option Instr) :
    Keeping (a.step fuel drive instr) :=
  Keeps.carried.step (callWith hdrive) fuel a instr

end Keeping

namespace Context

theorem state_of_finished {c : Context} (h : c.isFinished) : c.state = .returned ∨
    ∃ why, c.state = .faulted why := by
  cases hstate : c.state with
  | returned => exact Or.inl rfl
  | faulted why => exact Or.inr ⟨why, rfl⟩
  | ready | deferred w => simp [isFinished, hstate] at h

/-- What a step leaves is the same context, and it is not ready once it has stopped. -/
def Progress.IsOf (c : Context) : Progress → Prop
  | .running c' => c'.id = c.id
  | .stopped _ c' => c'.id = c.id ∧ c'.state ≠ .ready

theorem fail_gives (c : Context) (why : Fault) (rt : Runtime) :
    (c.fail why rt).Gives fun progress rt' => Keeps rt rt' ∧ progress.IsOf c :=
  ⟨Keeps.tell rt _, rfl, by simp⟩

theorem proceed_gives (c : Context) (top : Activation) (callers : List Activation) (signal : Signal)
    (rt : Runtime) :
    (c.proceed top callers signal rt).Gives fun progress rt' => Keeps rt rt' ∧ progress.IsOf c := by
  cases signal with
  | proceed => exact ⟨Keeps.refl rt, rfl⟩
  | returned =>
    cases callers with
    | nil => exact ⟨Keeps.refl rt, rfl, by simp⟩
    | cons caller rest => exact ⟨Keeps.refl rt, rfl⟩
  | deferred w => exact ⟨Keeps.refl rt, rfl, by simp⟩
  | called callee =>
    simp only [proceed]
    cases hpush : push { c with stack := top :: callers } callee with
    | pushed c' =>
      simp only [push] at hpush
      split at hpush
      · cases hpush
      · split at hpush <;> cases hpush
        exact ⟨Keeps.refl rt, rfl⟩
    | overflow why => exact fail_gives { c with stack := top :: callers } why rt
    | foreign b => trivial

theorem step_gives {drive : Drive} (hdrive : drive.IsLawful) (fuel : Nat) (c : Context)
    (rt : Runtime) :
    (c.step fuel drive rt).Gives fun progress rt' => Keeps rt rt' ∧ progress.IsOf c := by
  simp only [step]
  split
  · trivial
  · rename_i top callers _
    have hkeeps := Keeping.step hdrive fuel top.fetch.2 top.fetch.1 rt
    cases hrun : top.fetch.2.step fuel drive top.fetch.1 rt with
    | ok q rt₁ =>
      obtain ⟨a, signal⟩ := q
      have hran := hkeeps rt₁ (by rw [hrun]; rfl)
      exact (c.proceed_gives a callers signal rt₁).mono fun progress rt' h => ⟨hran.trans h.1, h.2⟩
    | fault why rt₁ =>
      have hran := hkeeps rt₁ (by rw [hrun]; rfl)
      have hfailed := fail_gives { c with stack := top.fetch.2 :: callers } why rt₁
      exact hfailed.mono fun progress rt' h => ⟨hran.trans h.1, h.2⟩
    | breach b rt₁ => trivial
    | exhausted => trivial

theorem run_isLawful (fuel : Nat) : Drive.IsLawful (run fuel) := by
  -- Host code may run contexts of its own in a step, and does so with less fuel.
  induction fuel with
  | zero => exact fun c rt => trivial
  | succ fuel ih =>
    intro c rt
    have hgives := step_gives ih fuel c rt
    simp only [run]
    cases hstep : c.step fuel (run fuel) rt with
    | ok progress rt₁ =>
      obtain ⟨hkept, hof⟩ := hgives.of_ok hstep
      cases progress with
      | running c₁ =>
        exact (ih c₁ rt₁).mono fun q rt₂ h => ⟨hkept.trans h.1, h.2.1.trans hof, h.2.2⟩
      | stopped v c₁ => exact ⟨hkept, hof⟩
    | fault e rt₁ =>
      rw [hstep] at hgives
      exact hgives.elim
    | breach b rt₁ => trivial
    | exhausted => trivial

theorem resume_isLawful (fuel : Nat) : Drive.IsLawful (resume fuel) := by
  intro c rt
  simp only [resume]
  split
  · rename_i hfinished
    refine ⟨Keeps.refl rt, rfl, fun hready => ?_⟩
    have hready : c.state = .ready := hready
    simp [isFinished, hready] at hfinished
  · exact run_isLawful fuel c rt

end Context

/-- No fault of a completion gets out. What it has carried along until then is carried along. -/
theorem Completion.run_gives {R : Runtime → Runtime → Prop} {fuel : Nat} {completion : Completion}
    {id : ContextId}
    {v : Value} (h : Act.Preserves R (Runtime.perform fuel (completion v))) (rt : Runtime) :
    (completion.run fuel id v rt).Gives fun _ rt' => R (rt.record (.completed id v)) rt' := by
  have hran := h (rt.record (.completed id v))
  simp only [Completion.run]
  cases hrun : Runtime.perform fuel (completion v) (rt.record (.completed id v)) with
  | ok a rt₁ => exact hran rt₁ (by rw [hrun]; rfl)
  | fault e rt₁ => exact hran rt₁ (by rw [hrun]; rfl)
  | breach b rt₁ => trivial
  | exhausted => trivial

namespace Keeping

theorem call (fuel : Nat) (p : ProcRef) (i : Invocation) : Keeping (Runtime.call fuel p i) :=
  callWith (Context.resume_isLawful fuel) p i

theorem callOn (fuel : Nat) (o : ObjectRef) (name : String) (arguments : Arguments)
    (usr : Option ObjectRef) :
    Keeping (Runtime.callOn fuel o name arguments usr) :=
  (Carried.ask _).bind fun p => call fuel p _

theorem newObject (fuel : Nat) (path : String) (arguments : Arguments) (usr : Option ObjectRef) :
    Keeping (Runtime.newObject fuel path arguments usr) :=
  serve (Context.resume_isLawful fuel) fuel (.construct path arguments usr)

theorem completion (fuel : Nat) (completion : Completion) (id : ContextId) (v : Value)
    (rt : Runtime) :
    (completion.run fuel id v rt).Gives fun _ rt' => Keeps (rt.record (.completed id v)) rt' :=
  Completion.run_gives (Act.Preserves.run (serve (Context.resume_isLawful fuel) fuel)
    (completion v)) rt

end Keeping

end ProcEngine
