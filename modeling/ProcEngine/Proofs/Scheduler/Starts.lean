import ProcEngine.Host.Action
import ProcEngine.Proofs.Fuel
import ProcEngine.Proofs.Scheduler.Turns
/-!
# Calling and spawning

A proc that is called from the outside and stops on the way is adrift until the next tick takes it
over. One that is spawned is parked at once. As far as ticks go the two come to the same: a tick
takes over whoever is adrift before it moves the counter on, so that the sleep of either is reckoned
from the same tick, and the queue and the chronicle come out the same as well. This needs the
context to be the only one that is adrift. Contexts that it has itself started are adrift before it
when it is called, and parked after it when it is spawned.
-/

namespace ProcEngine

namespace Runtime

/-! ### Contexts that run by themselves -/

/-- Whoever has gone adrift meanwhile has been created meanwhile. -/
structure Counts (rt rt' : Runtime) : Prop where
  contexts : rt.contexts ≤ rt'.contexts
  detached : rt'.contexts = rt.contexts → rt'.detached = rt.detached

namespace Counts

variable {rt rt' rt'' : Runtime}

theorem of_eq (hcontexts : rt'.contexts = rt.contexts) (hdetached : rt'.detached = rt.detached) :
    rt.Counts rt' :=
  ⟨Nat.le_of_eq hcontexts.symm, fun _ => hdetached⟩

theorem of_lt (h : rt.contexts < rt'.contexts) : rt.Counts rt' :=
  ⟨Nat.le_of_lt h, fun heq => absurd heq (Nat.ne_of_gt h)⟩

theorem trans (h : rt.Counts rt') (h' : rt'.Counts rt'') : rt.Counts rt'' where
  contexts := Nat.le_trans h.contexts h'.contexts
  detached hsame := by
    have hfirst : rt'.contexts = rt.contexts := Nat.le_antisymm (hsame ▸ h'.contexts) h.contexts
    exact (h'.detached (hsame.trans hfirst.symm)).trans (h.detached hfirst)

instance : Std.Refl Counts := ⟨fun _ => of_eq rfl rfl⟩

instance : Trans Counts Counts Counts := ⟨trans⟩

theorem activate (rt : Runtime) (p : ProcRef) (id : ContextId) (i : Invocation) :
    rt.Counts (rt.activate p id i).2 := by
  simp only [Runtime.activate]
  split <;> exact of_eq rfl rfl

theorem carried : Carried Counts where
  store _ _ _ := of_eq rfl rfl
  activate := activate

theorem callWith (n : Nat) (p : ProcRef) (i : Invocation) :
    Act.Preserves Counts (Runtime.callWith (Context.run n) p i) := by
  refine preserves_callWith (fun rt _ => ?_) fun rt _ => ?_
  · exact of_lt (Nat.lt_of_succ_le (Keeps.opened rt p i).contexts)
  · refine (Context.run_isLawful n (rt.opened p i).1 (rt.opened p i).2).mono fun q rt' hran => ?_
    have hmore := Nat.le_trans (Keeps.opened rt p i).contexts hran.1.contexts
    rw [← leave_contexts rt' q.2] at hmore
    exact of_lt (Nat.lt_of_succ_le hmore)

theorem resume (n : Nat) (c : Context) : Act.Preserves Counts (c.resume n) := by
  simp only [Context.resume]
  split
  · exact Act.Preserves.pure _
  · exact carried.run (fun _ _ => of_eq rfl rfl) (fun n _ => callWith n) n c

end Counts

/-- Until it first stops, what is called starts no other context. -/
def RunsAlone (rt : Runtime) (p : ProcRef) (i : Invocation) : Prop :=
  ∀ fuel v rt', call fuel p i rt = .ok v rt' → rt'.contexts = rt.contexts + 1

/-- Whoever has stopped last has stopped to sleep or to wait for the outside. -/
def HasDeferred (rt : Runtime) : Prop :=
  ∃ id w, rt.chronicle.head? = some (.stopped id (.deferred w))

variable {rt rt' : Runtime} {p : ProcRef} {i : Invocation}

theorem RunsAlone.detached (halone : rt.RunsAlone p i) (hdepth : rt.maxDepth ≠ 0) {fuel : Nat}
    {v : Value} {c : Context}
    (hresume : (rt.opened p i).1.resume fuel (rt.opened p i).2 = .ok (v, c) rt') :
    rt'.detached = rt.detached := by
  have hcall : call fuel p i rt = .ok v (rt'.leave c) := by
    rw [call, callWith_eq, if_neg hdepth, hresume]
  have hcontexts := halone fuel v _ hcall
  rw [leave_contexts, ← opened_contexts rt p i] at hcontexts
  have hcounts := Counts.resume fuel (rt.opened p i).1 (rt.opened p i).2 rt' (by rw [hresume]; rfl)
  exact (hcounts.detached hcontexts).trans (opened_detached rt p i)

end Runtime

namespace Scheduler

variable {s : Scheduler} {rt rt' : Runtime} {p : ProcRef} {i : Invocation} {fuel : Nat}

/-! ### Taking over -/

theorem adopt_leave (fuel : Nat) (s : Scheduler) {c : Context} (v : Value)
    (hsettled : rt.detached = #[]) :
    s.adopt fuel (rt.leave c) =
      (s.park fuel { context := c } v >>= fun s => s.adopt fuel)
      (rt.record (.stopped c.id c.state)) := by
  rw [Act.bind_apply]
  cases hfinished : c.isFinished with
  | true =>
    rw [park_eq fuel s hfinished, Runtime.leave, if_pos hfinished]
    rfl
  | false =>
    have htaken : ((rt.record (.stopped c.id c.state)).detach c).takeDetached =
        ([c], rt.record (.stopped c.id c.state)) := by
      simp [Runtime.takeDetached, Runtime.detach, Runtime.record, hsettled]
    have hsame : s.park fuel { context := c } .null = s.park fuel { context := c } v := by
      simp only [park]
    rw [Runtime.leave, if_neg (by simp [hfinished])]
    simp only [adopt, Act.bind_apply, Act.get_apply, Act.set_apply, htaken, parkAll, hsame]
    by_cases hlate : s.Oversleeps c
    · rw [Oversleeps.park_eq (p := { context := c }) hlate]
    · obtain ⟨s', rt', hpark, _, _, hdetached⟩ :=
        park_untold fuel hlate v (rt.record (.stopped c.id c.state))
      rw [hpark]
      exact (adopt_settled fuel s' (hdetached.trans hsettled)).symm

/-! ### Starting and then taking over -/

/-- To call and then to take over whoever is adrift is to spawn. -/
theorem call_adopt (fuel : Nat) (s : Scheduler) (hsettled : rt.detached = #[])
    (halone : rt.RunsAlone p i) :
    (Runtime.call fuel p i >>= fun _ => s.adopt fuel) rt =
      (s.spawn fuel p i >>= fun q => Pure.pure q.2) rt := by
  simp only [Act.bind_apply, spawn, callAsync_eq, Runtime.call, Runtime.callWith_eq]
  by_cases hdepth : rt.maxDepth = 0
  · simp only [if_pos hdepth]
    exact adopt_settled fuel s ((Runtime.opened_detached rt p i).trans hsettled)
  · simp only [if_neg hdepth, drive, Act.bind_apply]
    cases hrun : (rt.opened p i).1.resume fuel (rt.opened p i).2 with
    | ok q rt₁ =>
      obtain ⟨v, c⟩ := q
      have hleft := adopt_leave fuel s (c := c) v ((halone.detached hdepth hrun).trans hsettled)
      simp only [hleft, Act.bind_apply, Runtime.recording]
      cases s.park fuel { context := c } v (rt₁.record (.stopped c.id c.state)) with
      | ok s' rt₂ =>
        simp only
        cases s'.adopt fuel rt₂ <;> rfl
      | fault e rt₂ | breach b rt₂ | exhausted => rfl
    | fault e rt₁ | breach b rt₁ | exhausted => rfl

theorem spawn_settled {id : ContextId} {s' : Scheduler} (hsettled : rt.detached = #[])
    (hspawn : s.spawn fuel p i rt = .ok (id, s') rt') : rt'.detached = #[] := by
  rw [spawn, callAsync_eq] at hspawn
  by_cases hdepth : rt.maxDepth = 0
  · rw [if_pos hdepth] at hspawn
    cases hspawn
    exact (Runtime.opened_detached rt p i).trans hsettled
  · rw [if_neg hdepth] at hspawn
    obtain ⟨s₁, rt₁, hdrive, hspawn⟩ := Act.of_bind_eq_ok hspawn
    cases hspawn
    obtain ⟨_, rt₂, _, hdrive⟩ := Act.of_bind_eq_ok hdrive
    obtain ⟨_, _, hrecord, hdrive⟩ := Act.of_bind_eq_ok hdrive
    obtain ⟨s₃, rt₃, _, hadopt⟩ := Act.of_bind_eq_ok hdrive
    obtain ⟨_, _, _, hadopt', _, hnone⟩ | ⟨_, _, hadopt', _⟩ := adopt_untold fuel s₃ rt₃
    · rw [hadopt'] at hadopt
      cases hadopt
      exact hnone
    · rw [hadopt'] at hadopt
      cases hadopt

/-! ### Ticks -/

/-- Lets `k` ticks pass, and counts whom each of them resumes. -/
def ticks (fuel : Nat) : (k : Nat) → Scheduler → Act Runtime (List Nat × Scheduler)
  | 0, s => return ([], s)
  | k + 1, s => do
    let (n, s) ← s.advance fuel
    let (counts, s) ← ticks fuel k s
    return (n :: counts, s)

/-- What a tick and `k` more do once everybody who is adrift has been taken over. -/
def onward (fuel k : Nat) (s : Scheduler) : Act Runtime (List Nat × Scheduler) := do
  Runtime.recording (.ticked (s.tick + 1))
  let (n, s) ← resumeDue fuel { s with tick := s.tick + 1 } 0
  let (counts, s) ← ticks fuel k s
  return (n :: counts, s)

theorem ticks_succ (fuel k : Nat) (s : Scheduler) : ticks fuel (k + 1) s = s.adopt fuel >>=
    onward fuel k := by
  simp only [ticks, advance, Act.bind_assoc]
  rfl

theorem ticks_settled (fuel k : Nat) (s : Scheduler) (hsettled : rt.detached = #[]) :
    ticks fuel (k + 1) s rt = onward fuel k s rt := by
  rw [ticks_succ, Act.bind_apply, adopt_settled fuel s hsettled]

/-- From the first tick on, to be called and to be spawned are the same. -/
theorem call_ticks (fuel k : Nat) (s : Scheduler) (hsettled : rt.detached = #[])
    (halone : rt.RunsAlone p i) :
    (Runtime.call fuel p i >>= fun _ => ticks fuel (k + 1) s) rt =
      (s.spawn fuel p i >>= fun q => ticks fuel (k + 1) q.2) rt :=
  calc (Runtime.call fuel p i >>= fun _ => ticks fuel (k + 1) s) rt
    _ = ((Runtime.call fuel p i >>= fun _ => s.adopt fuel) >>= onward fuel k) rt := by
      rw [Act.bind_assoc, ticks_succ]
    _ = ((s.spawn fuel p i >>= fun q => Pure.pure q.2) >>= onward fuel k) rt := by
      rw [Act.bind_apply, call_adopt fuel s hsettled halone, ← Act.bind_apply]
    _ = (s.spawn fuel p i >>= fun q => onward fuel k q.2) rt := by
      rw [Act.bind_assoc]
      rfl
    _ = (s.spawn fuel p i >>= fun q => ticks fuel (k + 1) q.2) rt :=
      Act.bind_congr fun q rt' hspawn =>
        (ticks_settled fuel k q.2 (spawn_settled hsettled hspawn)).symm

/-- Before the first tick, to be called and to be spawned are the same to the objects and to whoever
listens. -/
theorem call_store (fuel : Nat) (s : Scheduler) (hsettled : rt.detached = #[])
    (halone : rt.RunsAlone p i) :
    (Runtime.call fuel p i rt).remains?.map Runtime.store =
      (s.spawn fuel p i rt).remains?.map Runtime.store := by
  have hadopted :
      ((Runtime.call fuel p i >>= fun _ => s.adopt fuel) rt).remains?.map Runtime.store =
      (Runtime.call fuel p i rt).remains?.map Runtime.store := by
    rw [Act.bind_apply]
    cases Runtime.call fuel p i rt with
    | ok v rt₁ =>
      obtain ⟨_, s', rt₂, hadopt, hstore, _⟩ | ⟨_, rt₂, hadopt, hstore⟩ :=
        adopt_untold fuel s rt₁ <;>
        simp only [hadopt, Outcome.remains?, Option.map_some, hstore]
    | fault e rt₁ | breach b rt₁ | exhausted => rfl
  rw [← hadopted, call_adopt fuel s hsettled halone, Act.remains?_bind_pure]

/-! ### Calls that come to their end -/

theorem drive_of_ended {c c' : Context} {v : Value} (hresume : c.resume fuel rt = .ok (v, c') rt')
    (hfinished : c'.isFinished) (s : Scheduler) (f : Completion) :
    s.drive fuel { context := c, completion := some f } rt =
      (f.run fuel c'.id v >>= fun _ => s.adopt fuel) (rt'.record (.stopped c'.id c'.state)) := by
  have hpark := park_eq fuel s (p := { context := c', completion := some f }) hfinished v
  simp only [drive, Act.bind_apply, hresume, Runtime.recording, hpark]
  cases f.run fuel c'.id v (rt'.record (.stopped c'.id c'.state)) <;> rfl

theorem finished_of_leave {c : Context} (hready : c.state ≠ .ready)
    (hended : ¬ (rt.leave c).HasDeferred) :
    c.isFinished := by
  cases hstate : c.state with
  | ready => exact absurd hstate hready
  | returned | faulted why => simp [Context.isFinished, hstate]
  | deferred w =>
    refine absurd ⟨c.id, w, ?_⟩ hended
    rw [Runtime.leave, if_neg (by simp [Context.isFinished, hstate]), hstate]
    rfl

def conclude (fuel : Nat) (s : Scheduler) (id : ContextId) (v : Value) (f : Completion) :
    Act Runtime (ContextId × Scheduler) := do
  f.run fuel id v
  return (id, ← s.adopt fuel)

/-- Whoever is to hear of the end of a call that comes to it at once hears what the call would have
returned. -/
theorem callAsync_of_ended {v : Value} (hsettled : rt.detached = #[])
    (hcall : Runtime.call fuel p i rt = .ok v rt')
    (hended : ¬ rt'.HasDeferred) (s : Scheduler) (f : Completion) :
    s.callAsync fuel p i (some f) rt = s.conclude fuel (rt.contexts + 1) v f rt' := by
  rw [Runtime.call, Runtime.callWith_eq] at hcall
  rw [callAsync_eq]
  by_cases hdepth : rt.maxDepth = 0
  · rw [if_pos hdepth] at hcall ⊢
    cases hcall
    refine Act.bind_congr fun _ rt₂ hrun => ?_
    -- Where contexts may hold nothing, the completion cannot leave anybody adrift either.
    have hkeeps := (Keeping.completion fuel f (rt.contexts + 1) .null (rt.refused p i)).of_ok hrun
    have hnone : rt₂.detached = #[] :=
      (hkeeps.shallow ((Keeps.opened rt p i).depth.trans hdepth)).trans
        ((rt.opened_detached p i).trans hsettled)
    rw [Act.bind_apply, adopt_settled fuel s hnone]
  · rw [if_neg hdepth] at hcall ⊢
    have hlawful := Context.resume_isLawful fuel (rt.opened p i).1 (rt.opened p i).2
    cases hrun : (rt.opened p i).1.resume fuel (rt.opened p i).2 with
    | ok q rt₁ =>
      obtain ⟨v', c⟩ := q
      rw [hrun] at hcall
      cases hcall
      obtain ⟨_, hid, hready⟩ := hlawful.of_ok hrun
      have hid : c.id = rt.contexts + 1 := hid
      have hfinished := finished_of_leave hready hended
      rw [Runtime.leave, if_pos hfinished]
      dsimp only
      rw [Act.bind_apply, drive_of_ended hrun hfinished, conclude, ← Act.bind_apply,
        Act.bind_assoc, hid]
    | fault e rt₁ | breach b rt₁ | exhausted =>
      rw [hrun] at hcall
      cases hcall

end Scheduler

/-! ### The two ways to start -/

/-- To call `p` and to spawn it come to the same, for whoever ticks by `s`. -/
structure Runtime.StartsAgree (rt : Runtime) (s : Scheduler) (p : ProcRef)
    (i : Invocation) : Prop where
  /-- When either is over, the same has been done to the objects, and the same been reported and
  noted. A sleep beyond the range of the counter breaks off the one at once and the other at the
  first tick. -/
  atOnce : ∀ fuel, (call fuel p i rt).remains?.map store = (s.spawn fuel p i rt).remains?.map store
  /-- After as many ticks, one or more, everything is the same: objects, reports and notes, who is
  parked and who is to be woken when, and how many each tick has resumed. If either breaks off, the
  other does so in the same way. -/
  later : ∀ fuel k, 0 < k →
    (call fuel p i >>= fun _ => Scheduler.ticks fuel k s) rt =
      (s.spawn fuel p i >>= fun q => Scheduler.ticks fuel k q.2) rt
  /-- Whoever is to hear of the end of a call that does not defer hears what the call would have
  returned, when all that the call does has been done. -/
  ended : ∀ fuel v rt', call fuel p i rt = .ok v rt' → ¬ rt'.HasDeferred → ∀ f : Completion,
    s.callAsync fuel p i (some f) rt = s.conclude fuel (rt.contexts + 1) v f rt'

/-- If nobody is adrift, then what runs by itself may be called or spawned. -/
theorem Runtime.RunsAlone.starts_agree {rt : Runtime} {p : ProcRef} {i : Invocation}
    (halone : rt.RunsAlone p i)
    (hsettled : rt.detached = #[]) (s : Scheduler) : rt.StartsAgree s p i where
  atOnce fuel := s.call_store fuel hsettled halone
  later fuel k hk := by
    obtain ⟨k, rfl⟩ := Nat.exists_eq_add_of_lt hk
    rw [Nat.zero_add]
    exact s.call_ticks fuel k hsettled halone
  ended fuel v rt' hcall hended f := s.callAsync_of_ended hsettled hcall hended f

theorem Runtime.runsAlone_of_call {rt rt' : Runtime} {p : ProcRef} {i : Invocation} {n : Nat}
    (hcall : (call n p i rt).state? = some rt') (hcontexts : rt'.contexts = rt.contexts + 1) :
    rt.RunsAlone p i := by
  intro m v rt'' hcall'
  have hmono {k l : Nat} (hle : k ≤ l) (hended : call k p i rt ≠ .exhausted) :
      call l p i rt = call k p i rt :=
    Outcome.eq_of_le (callWith_mono (Context.resume_mono hle) p i rt) hended
  have hm := hmono (Nat.le_max_left m n) (by rw [hcall']; simp)
  have hn := hmono (Nat.le_max_right m n) (by intro hnone; simp [hnone, Outcome.state?] at hcall)
  rw [← hn, hm, hcall'] at hcall
  cases hcall
  exact hcontexts

/-- A routine that tells what it does, goes to sleep twice and fails in the end. -/
def Runtime.restless : Runtime where
  procs := #[{
    signature := { name := "restless" }
    body :=
      (Host.Native.routine false [.effect (.log (.value (.int 1))), .sleep 0,
        .effect (.log (.value (.int 2))),
      .sleep 2, .effect (.fail "restless" "no sleep")]).body }]

theorem Runtime.restless_starts_agree :
    restless.detached = #[] ∧ restless.RunsAlone ⟨1, "restless"⟩ {} ∧
    (({} : Scheduler).spawn 9 ⟨1, "restless"⟩ {} restless).remains?.map (·.store.journal.toList) =
      some [.native (.int 1)] ∧
    ((({} : Scheduler).spawn 9 ⟨1, "restless"⟩ {} >>= fun q => Scheduler.ticks 9 3 q.2)
      restless).state?.map
        (·.store.journal.toList) =
      some [.native (.int 1), .native (.int 2), .fault 1 (.native "restless" "no sleep")
        [⟨"restless", .suspendable⟩]] := by
  have hcalled :
      (call 9 ⟨1, "restless"⟩ {} restless).state?.map (fun rt =>
        (rt.contexts, rt.store.journal.toList)) =
      some (1, [.native (.int 1)]) := by decide +kernel
  obtain ⟨rt', hstate, htold⟩ := Option.map_eq_some_iff.mp hcalled
  have halone : restless.RunsAlone ⟨1, "restless"⟩ {} :=
    runsAlone_of_call hstate (Prod.mk.inj htold).1
  have hagree := halone.starts_agree rfl {}
  refine ⟨rfl, halone, ?_, ?_⟩
  · have hstore := congrArg (Option.map fun store => store.journal.toList) (hagree.atOnce 9)
    simp only [Option.map_map] at hstore
    refine hstore.symm.trans ?_
    decide +kernel
  · rw [← hagree.later 9 3 (by decide)]
    decide +kernel

end ProcEngine
