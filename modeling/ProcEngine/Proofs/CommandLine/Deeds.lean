import ProcEngine.CommandLine.Session
/-!
# What a session does on its terminal

A session logs lines and lets ticks pass, and nothing that its terminal gives back has a say in how
it goes on. So what it does and how it ends is the same on every terminal: it can be noted on one
that does nothing, and what has been noted be carried out on another.
-/

namespace ProcEngine.CommandLine

/-- What is done on a terminal. -/
inductive Deed
  | print (line : String)
  | log (line : Log.Line)
  | complain (line : String)
  | pause (length : UInt64)

def Deed.isPause : Deed → Bool
  | pause _ => true
  | print _ | log _ | complain _ => false

/-- A value, and what was done until it was there. -/
@[ext]
structure Noted (α : Type) where
  deeds : List Deed := []
  value : α

instance : Monad Noted where
  pure a := { value := a }
  bind x f := { deeds := x.deeds ++ (f x.value).deeds, value := (f x.value).value }

instance : LawfulMonad Noted := by
  refine LawfulMonad.mk' Noted ?_ (fun _ _ => rfl) ?_
  · intro α x
    ext1
    · exact List.append_nil x.deeds
    · rfl
  · intro α β γ x f g
    ext1
    · exact List.append_assoc _ _ _
    · rfl

/-- A terminal that notes what is done on it. There are no files. -/
def Terminal.noting : Terminal Noted where
  read _ := return .error .notFound
  print line := ⟨[.print line], ()⟩
  log line := ⟨[.log line], ()⟩
  complain line := ⟨[.complain line], ()⟩
  pause length := ⟨[.pause length], ()⟩

variable {m : Type → Type} [Monad m]

def Deed.carryOut (t : Terminal m) : Deed → m Unit
  | print line => t.print line
  | log line => t.log line
  | complain line => t.complain line
  | pause length => t.pause length

namespace Noted

variable {α β : Type}

/-- Carries out what has been noted. -/
def on (t : Terminal m) (x : Noted α) : m α := do
  x.deeds.forM (Deed.carryOut t)
  return x.value

/-- How many ticks have been let pass. -/
def ticks (x : Noted α) : Nat := x.deeds.countP Deed.isPause

theorem ticks_bind (x : Noted α) (f : α → Noted β) :
    (x >>= f).ticks = x.ticks + (f x.value).ticks :=
  List.countP_append

theorem value_bind (x : Noted α) (f : α → Noted β) : (x >>= f).value = (f x.value).value := rfl

theorem ticks_lift (x : Noted α) : (liftM x : ExceptT Failure Noted α).run.ticks = x.ticks :=
  ticks_bind x _

theorem ticks_run_bind (x : ExceptT Failure Noted α) (f : α → ExceptT Failure Noted β) :
    (x >>= f).run.ticks = x.run.ticks + (match x.run.value with
      | .ok a => (f a).run.ticks
      | .error _ => 0) := by
  rw [ExceptT.run_bind, ticks_bind]
  cases x.run.value <;> rfl

theorem value_run_bind (x : ExceptT Failure Noted α) (f : α → ExceptT Failure Noted β) :
    (x >>= f).run.value = x.run.value.bind fun a => (f a).run.value := by
  rw [ExceptT.run_bind, value_bind]
  cases x.run.value <;> rfl

variable [LawfulMonad m] (t : Terminal m)

theorem on_pure (a : α) : (pure a : Noted α).on t = pure a := by
  simp [on, Pure.pure]

theorem on_bind (x : Noted α) (f : α → Noted β) : (x >>= f).on t = x.on t >>= fun a =>
    (f a).on t := by
  show (do List.forM (x.deeds ++ (f x.value).deeds) (Deed.carryOut t); pure (f x.value).value) = _
  simp only [on, List.forM_eq_forM, List.forM_append, bind_assoc, pure_bind]

theorem on_map (f : α → β) (x : Noted α) : (f <$> x).on t = f <$> x.on t := by
  simp only [← bind_pure_comp, on_bind, on_pure]

theorem on_forM (l : List α) (f : α → Noted Unit) : (l.forM f).on t = l.forM fun a =>
    (f a).on t := by
  induction l with
  | nil => exact on_pure t ()
  | cons a l ih =>
    simp only [List.forM_eq_forM, List.forM_cons, on_bind] at ih ⊢
    simp only [ih]

end Noted

/-! ### Sessions on any terminal -/

section Replays

variable [LawfulMonad m] (t : Terminal m) {α β : Type}

/-- To do `y` is to do what has been noted of `x`, and it ends in the same way. -/
def Replays (x : ExceptT Failure Noted α) (y : ExceptT Failure m α) : Prop := y.run = x.run.on t

variable {t}

namespace Replays

theorem pure (a : α) : Replays t (Pure.pure a) (Pure.pure a) := (Noted.on_pure t (Except.ok a)).symm

theorem throw (why : Failure) : Replays t (throw why : ExceptT Failure Noted α) (throw why) :=
  (Noted.on_pure t (Except.error why)).symm

theorem bind {x : ExceptT Failure Noted α} {y : ExceptT Failure m α}
    {f : α → ExceptT Failure Noted β}
    {g : α → ExceptT Failure m β} (hx : Replays t x y) (hf : ∀ a, Replays t (f a) (g a)) :
    Replays t (x >>= f) (y >>= g) := by
  have hy : y.run = x.run.on t := hx
  rw [Replays, ExceptT.run_bind, ExceptT.run_bind, Noted.on_bind, hy]
  congr 1
  funext ending
  cases ending with
  | ok a => exact hf a
  | error why => exact (Noted.on_pure t (Except.error why)).symm

theorem lift {x : Noted α} {y : m α} (h : y = x.on t) : Replays t (liftM x) (liftM y) := by
  subst h
  exact (Noted.on_map t Except.ok x).symm

end Replays

theorem logAll_on (f : Log.Filter) (lines : List Log.Line) :
    t.logAll f lines = (Terminal.noting.logAll f lines).on t := by
  have hline (line : Log.Line) : (Terminal.noting.log line).on t = t.log line := by
    simp [Terminal.noting, Noted.on, Deed.carryOut]
  simp only [Terminal.logAll, Noted.on_forM, hline]

theorem pause_on (length : UInt64) : t.pause length = (Terminal.noting.pause length).on t := by
  simp [Terminal.noting, Noted.on, Deed.carryOut]

namespace Session

theorem act_replays (s : Session) (x : Act Runtime (α × Scheduler)) :
    Replays t (s.act Terminal.noting x) (s.act t x) := by
  unfold act
  cases x s.runtime with
  | ok q rt =>
    apply Replays.bind
    · apply Replays.lift
      simp only [Noted.on_bind, Noted.on_pure, ← logAll_on]
    · intro rt
      exact Replays.pure _
  | fault why rt =>
    apply Replays.bind
    · apply Replays.lift
      simp only [Noted.on_bind, Noted.on_pure, ← logAll_on]
    · intro rt
      exact Replays.pure _
  | breach why rt => exact Replays.throw _
  | exhausted => exact Replays.throw _

theorem start_replays (fuel : Nat) (s : Session) (entry : String) :
    Replays t (s.start Terminal.noting fuel entry) (s.start t fuel entry) := by
  unfold start
  cases s.runtime.global entry with
  | error why => exact Replays.throw _
  | ok p => exact act_replays s _

theorem proceed_replays (fuel : Nat) (s : Session) :
    Replays t (s.proceed Terminal.noting fuel) (s.proceed t fuel) := by
  induction fuel generalizing s with
  | zero => exact Replays.throw _
  | succ fuel ih =>
    unfold proceed
    cases s.next with
    | stop why =>
      apply Replays.bind
      · exact Replays.lift (logAll_on _ _)
      · intro _
        exact Replays.pure s
    | tick =>
      apply Replays.bind
      · exact Replays.lift (pause_on _)
      · intro _
        exact Replays.bind (act_replays s _) ih

/-- What a session does from its start until it stops, and how it ends. -/
def course (fuel : Nat) (s : Session) (entry : String) : Noted (Except Failure Session) :=
  ExceptT.run do (← s.start Terminal.noting fuel entry).proceed Terminal.noting fuel

/-- What is left to do when a session has ended. -/
def conclude (t : Terminal m) : Except Failure Session → m (Except Failure Unit)
  | .ok s => do
    t.logAll s.filter [ofRun .info "world idle" [("ticks", toString s.scheduler.tick)]]
    return .ok ()
  | .error why => return .error why

end Session

/-- On every terminal, to run a world is to carry out the course of its session and to conclude
it. -/
theorem runWorld_eq (fuel : Nat) (s : Session) (entry : String) :
    (runWorld t fuel s entry).run = (s.course fuel entry).on t >>= Session.conclude t := by
  have hcourse : Replays t (do (← s.start Terminal.noting fuel entry).proceed Terminal.noting fuel)
      (do (← s.start t fuel entry).proceed t fuel) :=
    (Session.start_replays fuel s entry).bind (Session.proceed_replays fuel)
  rw [Session.course, ← hcourse, runWorld, ← bind_assoc, ExceptT.run_bind]
  congr 1
  funext ending
  cases ending with
  | ok s =>
    rw [Session.conclude]
    simp
  | error why => rfl

end Replays

end ProcEngine.CommandLine
