import ProcEngine.Scheduler
/-!
# Fuel

Fuel bounds how long an execution may take and decides nothing else: with more of it, an execution
that came to its end comes to the same end. `x ≤ y` says that `y` is `x` unless `x` ran out of fuel.
Everything that is executed is monotone in that order, so statements may leave the amount of fuel
open.
-/

namespace ProcEngine

variable {σ α β : Type}

instance : LE (Outcome σ α) := ⟨fun x y => x = .exhausted ∨ x = y⟩

instance : LE (Act σ α) := ⟨fun x y => ∀ s, x s ≤ y s⟩

namespace Outcome

@[simp] theorem exhausted_le (x : Outcome σ α) : .exhausted ≤ x := Or.inl rfl

@[refl, simp] theorem le_refl (x : Outcome σ α) : x ≤ x := Or.inr rfl

theorem eq_of_le {x y : Outcome σ α} (h : x ≤ y) (hx : x ≠ .exhausted) : y = x :=
  (h.resolve_left hx).symm

end Outcome

namespace Act

@[refl, simp] theorem le_refl (x : Act σ α) : x ≤ x := fun s => Outcome.le_refl (x s)

theorem exhausted_le {x y : Act σ α} (h : ∀ s, x s = .exhausted) : x ≤ y := fun s => Or.inl (h s)

theorem bind_mono {x y : Act σ α} {f g : α → Act σ β} (h : x ≤ y) (hf : ∀ a, f a ≤ g a) :
    (x >>= f) ≤ (y >>= g) := by
  intro s
  rw [bind_apply, bind_apply]
  rcases h s with hx | hx
  · rw [hx]
    exact Outcome.exhausted_le _
  · rw [← hx]
    cases x s with
    | ok a t => exact hf a t
    | fault e t => exact Outcome.le_refl _
    | breach b t => exact Outcome.le_refl _
    | exhausted => exact Outcome.le_refl _

theorem bind_mono_right {x : Act σ α} {f g : α → Act σ β} (hf : ∀ a, f a ≤ g a) :
    (x >>= f) ≤ (x >>= g) :=
  bind_mono (le_refl x) hf

end Act

theorem Program.run_mono {i : Interface} {serve serve' : (r : i.Request) → Act σ (i.Answer r)}
    (h : ∀ r, serve r ≤ serve' r) (p : Program i α) : p.run serve ≤ p.run serve' := by
  induction p with
  | done a => exact Act.le_refl _
  | fail e => exact Act.le_refl _
  | ask r next ih =>
    intro s
    simp only [Program.run]
    rcases h r s with hx | hx
    · rw [hx]
      exact Outcome.exhausted_le _
    · rw [← hx]
      cases serve r s with
      | ok a t => exact ih (.ok a) t
      | fault e t => exact ih (.error e) t
      | breach b t => exact Outcome.le_refl _
      | exhausted => exact Outcome.le_refl _

/-! ### The object table -/

namespace Store

theorem serveRead_mono {read read' : ObjectRef → String → Act Store Value}
    (h : ∀ o name, read o name ≤ read' o name) (r : ReadRequest) :
    serveRead read r ≤ serveRead read' r := by
  cases r with
  | read o name => exact h o name
  | note e => exact Act.le_refl _

theorem read_mono {m n : Nat} (h : m ≤ n) (o : ObjectRef) (name : String) :
    read m o name ≤ read n o name := by
  induction m generalizing n o name with
  | zero => exact Act.exhausted_le fun _ => rfl
  | succ m ih =>
    obtain ⟨n, rfl⟩ : ∃ k, n = k + 1 := ⟨n - 1, by omega⟩
    simp only [read]
    refine Act.bind_mono_right fun ⟨object, v⟩ => ?_
    cases object.definition.hooks with
    | none => exact Act.le_refl _
    | some hooks => exact Program.run_mono (serveRead_mono fun o name => ih (by omega) o name) _

variable {serve serve' : (r : TableRequest) → Act Store r.Answer}

theorem write_mono (h : ∀ r, serve r ≤ serve' r) (o : ObjectRef) (name : String) (v : Value) :
    write serve o name v ≤ write serve' o name v := by
  simp only [write]
  refine Act.bind_mono_right fun ⟨object, old⟩ => Act.bind_mono_right fun _ =>
    Act.bind_mono_right fun _ => ?_
  cases object.definition.hooks with
  | none => exact Act.le_refl _
  | some hooks => exact Program.run_mono h _

theorem sparing_mono (o : ObjectRef) {hook hook' : Act Store Unit} (h : hook ≤ hook') :
    sparing o hook ≤ sparing o hook' := by
  intro s
  simp only [sparing]
  rcases h s with hx | hx
  · rw [hx]
    exact Outcome.exhausted_le _
  · rw [hx]

theorem delete_mono (h : ∀ r, serve r ≤ serve' r) (o : ObjectRef) :
    delete serve o ≤ delete serve' o := by
  simp only [delete]
  refine Act.bind_mono_right fun s => ?_
  cases s.objects.get? o with
  | none => exact Act.le_refl _
  | some object =>
    refine Act.bind_mono_right fun _ => ?_
    cases object.definition.hooks with
    | none => exact Act.le_refl _
    | some hooks =>
      exact Act.bind_mono (sparing_mono o (Program.run_mono h _)) fun _ => Act.le_refl _

theorem serve_mono {m n : Nat} (h : m ≤ n) (r : TableRequest) :
    Store.serve m r ≤ Store.serve n r := by
  induction m generalizing n r with
  | zero => exact Act.exhausted_le fun _ => rfl
  | succ m ih =>
    obtain ⟨n, rfl⟩ : ∃ k, n = k + 1 := ⟨n - 1, by omega⟩
    cases r with
    | read o name => exact read_mono (by omega) o name
    | write o name v => exact write_mono (fun r => ih (by omega) r) o name v
    | delete o => exact delete_mono (fun r => ih (by omega) r) o
    | allocate path => exact Act.le_refl _
    | alive o => exact Act.le_refl _
    | count => exact Act.le_refl _
    | referenceId o => exact Act.le_refl _
    | note e => exact Act.le_refl _

end Store

/-! ### Contexts -/

instance : LE Drive := ⟨fun x y => ∀ c, x c ≤ y c⟩

namespace Runtime

theorem onStore_mono {x y : Act Store α} (h : x ≤ y) : onStore x ≤ onStore y := by
  intro rt
  simp only [onStore]
  rcases h rt.store with hx | hx
  · rw [hx]
    exact Outcome.exhausted_le _
  · rw [hx]

theorem callWith_mono {drive drive' : Drive} (h : drive ≤ drive') (p : ProcRef) (i : Invocation) :
    callWith drive p i ≤ callWith drive' p i := by
  intro rt
  simp only [callWith]
  split
  · exact Outcome.le_refl _
  · exact Outcome.le_refl _
  · rename_i c _
    rcases h c (rt.newContext.2.activate p rt.newContext.1.id i).2 with hx | hx
    · rw [hx]
      exact Outcome.exhausted_le _
    · rw [hx]

theorem constructWith_mono {m n : Nat} (hm : m ≤ n) {drive drive' : Drive} (h : drive ≤ drive')
    (path : String) (arguments : Arguments) (usr : Option ObjectRef) :
    constructWith m drive path arguments usr ≤ constructWith n drive' path arguments usr :=
  Act.bind_mono (onStore_mono (Store.serve_mono hm _)) fun _ =>
    Act.bind_mono (callWith_mono h _ _) fun _ => Act.le_refl _

theorem serve_mono {m n : Nat} (hm : m ≤ n) {drive drive' : Drive} (h : drive ≤ drive')
    (r : HostRequest) :
    serve m drive r ≤ serve n drive' r := by
  cases r with
  | table r => exact onStore_mono (Store.serve_mono hm r)
  | call p i => exact callWith_mono h p i
  | construct path arguments usr => exact constructWith_mono hm h path arguments usr
  | created o arguments =>
    refine Act.bind_mono_right fun d => ?_
    cases d.hooks with
    | none => exact Act.le_refl _
    | some hooks =>
      exact Act.bind_mono (onStore_mono (Program.run_mono (Store.serve_mono hm) _)) fun _ =>
        Act.le_refl _
  | global name => exact Act.le_refl _
  | method o name => exact Act.le_refl _
  | method? o name => exact Act.le_refl _
  | initializer o => exact Act.le_refl _

end Runtime

theorem Routine.advance_mono {serve serve' : Serve} (h : ∀ r, serve r ≤ serve' r) (p : Routine) :
    Routine.advance serve p ≤ Routine.advance serve' p := by
  induction p with
  | done v => exact Act.le_refl _
  | fail e => exact Act.le_refl _
  | ask r next ih =>
    intro rt
    cases r with
    | host r =>
      simp only [Routine.advance]
      rcases h r rt with hx | hx
      · rw [hx]
        exact Outcome.exhausted_le _
      · rw [← hx]
        cases serve r rt with
        | ok a rt => exact ih (.ok a) rt
        | fault e rt => exact ih (.error e) rt
        | breach b rt => exact Outcome.le_refl _
        | exhausted => exact Outcome.le_refl _
    | invoke p i => exact Outcome.le_refl _
    | sleep n => exact Outcome.le_refl _
    | wait => exact Outcome.le_refl _

namespace Activation

variable {m n : Nat}

theorem meet_mono (h : m ≤ n) (a : Activation) (d : Demand) : a.meet m d ≤ a.meet n d := by
  cases d with
  | read o name =>
    exact Act.bind_mono (Runtime.onStore_mono (Store.serve_mono h _)) fun _ => Act.le_refl _
  | write o name v =>
    exact Act.bind_mono (Runtime.onStore_mono (Store.serve_mono h _)) fun _ => Act.le_refl _
  | delete o =>
    exact Act.bind_mono (Runtime.onStore_mono (Store.serve_mono h _)) fun _ => Act.le_refl _
  | construct path args =>
    exact Act.bind_mono (Runtime.onStore_mono (Store.serve_mono h _)) fun _ => Act.le_refl _
  | proceed => exact Act.le_refl _
  | result v => exact Act.le_refl _
  | call name args => exact Act.le_refl _
  | callMethod o name args => exact Act.le_refl _
  | callSuper args => exact Act.le_refl _
  | sleep ticks => exact Act.le_refl _
  | finish v => exact Act.le_refl _

theorem stepScript_mono (h : m ≤ n) (a : Activation) (f : ScriptFrame) (instr : Option Instr) :
    a.stepScript m f instr ≤ a.stepScript n f instr := by
  simp only [stepScript]
  split
  · exact Act.le_refl _
  · split
    · exact Act.le_refl _
    · exact Act.bind_mono_right fun ⟨d, f⟩ => meet_mono h _ d

theorem stepRoutine_mono {serve serve' : Serve} (h : ∀ r, serve r ≤ serve' r) (a : Activation)
    (f : RoutineFrame) :
    a.stepRoutine serve f ≤ a.stepRoutine serve' f :=
  Act.bind_mono_right fun p => Act.bind_mono (Routine.advance_mono h p) fun _ => Act.le_refl _

theorem step_mono (hm : m ≤ n) {drive drive' : Drive} (h : drive ≤ drive') (a : Activation)
    (instr : Option Instr) :
    a.step m drive instr ≤ a.step n drive' instr := by
  simp only [step]
  split
  · exact stepScript_mono hm a _ instr
  · exact Act.bind_mono_right fun i =>
      Act.bind_mono (Program.run_mono (Runtime.serve_mono hm h) _) fun _ => Act.le_refl _
  · exact stepRoutine_mono (Runtime.serve_mono hm h) a _

end Activation

namespace Context

variable {m n : Nat}

theorem step_mono (hm : m ≤ n) {drive drive' : Drive} (h : drive ≤ drive') (c : Context) :
    c.step m drive ≤ c.step n drive' := by
  intro rt
  simp only [step]
  split
  · exact Outcome.le_refl _
  · rename_i top callers _
    rcases Activation.step_mono hm h top.fetch.2 top.fetch.1 rt with hx | hx
    · rw [hx]
      exact Outcome.exhausted_le _
    · rw [hx]

theorem run_mono (h : m ≤ n) : run m ≤ run n := by
  induction m generalizing n with
  | zero => exact fun c => Act.exhausted_le fun _ => rfl
  | succ m ih =>
    obtain ⟨n, rfl⟩ : ∃ k, n = k + 1 := ⟨n - 1, by omega⟩
    have hmn : m ≤ n := by omega
    intro c rt
    simp only [run]
    rcases step_mono hmn (ih hmn) c rt with hx | hx
    · rw [hx]
      exact Outcome.exhausted_le _
    · rw [← hx]
      cases c.step m (run m) rt with
      | ok p rt =>
        cases p with
        | running c => exact ih hmn c rt
        | stopped v c => exact Outcome.le_refl _
      | fault e rt => exact Outcome.le_refl _
      | breach b rt => exact Outcome.le_refl _
      | exhausted => exact Outcome.le_refl _

theorem resume_mono (h : m ≤ n) (c : Context) : c.resume m ≤ c.resume n := by
  simp only [resume]
  split
  · exact Act.le_refl _
  · exact run_mono h c

end Context

theorem Runtime.perform_mono {m n : Nat} (h : m ≤ n) (p : Program HostCalls α) :
    Runtime.perform m p ≤ Runtime.perform n p :=
  Program.run_mono (Runtime.serve_mono h fun c => Context.resume_mono h c) p

/-! ### The scheduler -/

theorem Completion.run_mono {m n : Nat} (h : m ≤ n) (completion : Completion) (id : ContextId)
    (v : Value) :
    Completion.run m completion id v ≤ Completion.run n completion id v := by
  intro rt
  simp only [Completion.run]
  rcases Runtime.perform_mono h (completion v) (rt.record (.completed id v)) with hx | hx
  · rw [hx]
    exact Outcome.exhausted_le _
  · rw [hx]

namespace Scheduler

variable {m n : Nat}

theorem park_mono (h : m ≤ n) (s : Scheduler) (p : Parked) (v : Value) :
    s.park m p v ≤ s.park n p v := by
  simp only [park]
  split
  · exact Act.le_refl _
  · exact Act.le_refl _
  all_goals
    split
    · exact Act.bind_mono (Completion.run_mono h _ _ v) fun _ => Act.le_refl _
    · exact Act.le_refl _

theorem parkAll_mono (h : m ≤ n) (s : Scheduler) (cs : List Context) :
    s.parkAll m cs ≤ s.parkAll n cs := by
  induction cs generalizing s with
  | nil => exact Act.le_refl _
  | cons c rest ih => exact Act.bind_mono (park_mono h s _ _) fun s => ih s

theorem adopt_mono (h : m ≤ n) (s : Scheduler) : s.adopt m ≤ s.adopt n :=
  Act.bind_mono_right fun _ => Act.bind_mono_right fun _ => parkAll_mono h s _

theorem drive_mono (h : m ≤ n) (s : Scheduler) (p : Parked) : s.drive m p ≤ s.drive n p :=
  Act.bind_mono (Context.resume_mono h _) fun ⟨v, _⟩ => Act.bind_mono_right fun _ =>
    Act.bind_mono (park_mono h s _ v) fun s => adopt_mono h s

theorem rouse_mono (h : m ≤ n) (s : Scheduler) (p : Parked) : s.rouse m p ≤ s.rouse n p :=
  Act.bind_mono_right fun _ => drive_mono h _ p

theorem resumeDue_mono (h : m ≤ n) (s : Scheduler) (resumed : Nat) :
    resumeDue m s resumed ≤ resumeDue n s resumed := by
  induction m generalizing n s resumed with
  | zero => exact Act.exhausted_le fun _ => rfl
  | succ m ih =>
    obtain ⟨n, rfl⟩ : ∃ k, n = k + 1 := ⟨n - 1, by omega⟩
    have hmn : m ≤ n := by omega
    simp only [resumeDue]
    split
    · exact Act.le_refl _
    · split
      · exact Act.le_refl _
      · split
        · exact ih hmn _ _
        · exact Act.bind_mono (rouse_mono hmn _ _) fun s => ih hmn s _

end Scheduler

end ProcEngine
