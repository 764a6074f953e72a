import ProcEngine.Proofs.Scheduler.Lives
/-!
# Secluded calls among others

Others may change, create and delete objects, fault, overflow the stack and start contexts of their
own: a call of secluded code comes to what it comes to alone. The others are whatever leaves the
code as it is (`Runtime.Steady`), and a host that resumes them in any order is no exception.
-/

namespace ProcEngine

open Chronicle

variable {h₀ h h' : Host} {e : Episode} {before after episodes : List Episode} {rt : Runtime}
  {p : ProcRef} {i : Invocation} {k : Option Completion}

theorem Host.Runs.steady (hreached : h.Reached) (hruns : h.Runs episodes h') :
    h.runtime.Steady h'.runtime := by
  have htend := hreached.tending
  have hbegun : Tending Runtime.Steady h.runtime h.scheduler h.runtime :=
    ⟨htend.parked, htend.detached, .refl _⟩
  exact (hbegun.runs Runtime.Steady.upkept hruns).since

/-- What `deeds` tell of a call by its context `id`, which is the states that the context stops in,
one after the other, and the value that its completion gets, is what the call gives alone: `seen`,
and `c` in the end. -/
structure Runtime.SeenAlone (rt : Runtime) (p : ProcRef) (i : Invocation) (k : Option Completion)
    (id : ContextId)
    (deeds : List Milestone) (seen : List (Value × ContextState)) (c : Context) : Prop where
  alone : ∃ rt', rt.Called Eq p i seen c rt'
  stops : deeds.filterMap (Milestone.stop? id) = seen.map Prod.snd
  completed : ∀ f, k = some f → ∀ v, .completed id v ∈ deeds ↔ c.isFinished ∧
    seen.getLast? = some (v, c.state)

theorem Host.Runs.seenAlone (hsecluded : h.runtime.Secluded p) (hfresh : h₀.IsFresh)
    (hbefore : h₀.Runs before h)
    (hruns : h.Runs (e :: after) h') (hstarts : e.operation.Starts p i k) :
    ∃ id, e.started? = some id ∧
      ∃ seen c, h.runtime.SeenAlone p i k id ((before ++ e :: after).flatMap Episode.deeds) seen
        c := by
  have hin := hbefore.inOrder hfresh.inOrder
  have htend := ((hfresh.tending Runtime.Steady).runs Runtime.Steady.upkept hbefore).rebase rfl
  obtain ⟨id, hstarted, seen, c, hlives⟩ := hruns.starts_lives hin htend hstarts
  have hwhole : h'.runtime.chronicle = ((before ++ e :: after).flatMap Episode.deeds).reverse := by
    rw [hruns.chronicle hin, hbefore.chronicle hfresh.inOrder, hfresh.chronicle, List.append_nil,
      List.flatMap_append, List.reverse_append]
  refine ⟨id, hstarted, seen, c, hlives.called.alone hsecluded fun hsteady => hsteady, ?_,
    fun f hf v => ?_⟩
  · rw [← hlives.stops, hwhole, stops, List.reverse_reverse]
  · subst hf
    rw [← hlives.completed_iff (hruns.inOrder hin).books v, hwhole, List.mem_reverse]

/-- Whatever others do, a call of `p` in `rt` by `i` comes to what it comes to alone. -/
structure Runtime.KeepsToItself (rt : Runtime) (p : ProcRef) (i : Invocation) : Prop where
  /-- Whatever its resumes give in company, they give alone. -/
  alone : ∀ seen c rt', rt.Called Steady p i seen c rt' → ∃ rt'', rt.Called Eq p i seen c rt''
  /-- After as many resumes the same has been seen alone, and the next resume comes to the same: it
  gives the same, or it never comes to an end. -/
  same : ∀ seen seen' c c' rt' rt'', rt.Called Steady p i seen c rt' →
    rt.Called Eq p i seen' c' rt'' →
    seen.length = seen'.length → seen = seen' ∧ c = c' ∧ ∀ n, (c.resume n rt').forget =
      (c'.resume n rt'').forget
  /-- What a host that starts the call sees of it, among whatever else the host does, is what it
  sees of it alone. -/
  hosted : ∀ (h₀ h h' : Host) before e after k, h₀.IsFresh → h₀.Runs before h → h.runtime = rt →
    h.Runs (e :: after) h' → e.operation.Starts p i k → ∃ id, e.started? = some id ∧
      ∃ seen c, rt.SeenAlone p i k id ((before ++ e :: after).flatMap Episode.deeds) seen c

/-- A call of secluded code comes to the same whatever others do, and all that contexts and those
who drive them ever do is such that it does. -/
theorem Runtime.Secluded.keepsToItself (hsecluded : rt.Secluded p) (i : Invocation) :
    rt.KeepsToItself p i ∧
      (∀ n (c c' : Context) rt₁ rt₂ v, c.UnderWay → c.resume n rt₁ = .ok (v, c') rt₂ →
        rt₁.Steady rt₂) ∧
      ∀ (h h' : Host) episodes, h.Reached → h.Runs episodes h' → h.runtime.Steady h'.runtime := by
  refine ⟨⟨fun seen c rt' hcalled => hcalled.alone hsecluded fun hsteady => hsteady, ?_, ?_⟩, ?_,
    fun h h' episodes hreached hruns => hruns.steady hreached⟩
  · intro seen seen' c c' rt' rt'' hcalled hlone hlength
    have hothers {rt rt' : Runtime} (hsteady : rt.Steady rt') : rt.Steady rt' := hsteady
    obtain ⟨rfl, rfl⟩ := hcalled.unique hsecluded hothers .of_idle hlone hlength
    obtain ⟨hleft, hrt'⟩ := hcalled.secluded hsecluded hothers
    have hrt'' := (hlone.secluded hsecluded .of_idle).2
    exact ⟨rfl, rfl, fun n => (Context.resume_blind n hleft).same hrt' hrt''⟩
  · intro h₀ h h' before e after k hfresh hbefore hrt hruns hstarts
    subst hrt
    exact Host.Runs.seenAlone hsecluded hfresh hbefore hruns hstarts
  · intro n c c' rt₁ rt₂ v hunder hresume
    exact ((Steady.upkept.resume n c rt₁ hunder).of_ok hresume).2.trans (.of_eq rfl rfl)

namespace Host

def crowded : Host where
  runtime := {
    procs := #[
      { signature := { name := "main", params := ["n"] }
        body :=
          .script #[.getLocal 0, .call "sleep" 1, .pop, .getLocal 0, .push (.int 1),
            .add, .ret] 1 },
      Builtins.sleepProc,
      { signature := { name := "crash" }, body := .script #[.push (.text "no"), .crash] 0 },
      { signature := { name := "flood" }, body := .script #[.call "flood" 0, .ret] 0 }]
    globals := ((∅ : Names ProcRef).insert "sleep" ⟨2, "sleep"⟩).insert "flood" ⟨4, "flood"⟩
    maxDepth := 3 }

theorem crowded_secluded : crowded.runtime.Secluded ⟨1, "main"⟩ := by
  have hreaches (q : ProcRef) (hq : crowded.runtime.Reaches ⟨1, "main"⟩ q) : q = ⟨1, "main"⟩ ∨
      q = ⟨2, "sleep"⟩ := by
    induction hq with
    | self => exact Or.inl rfl
    | @call q r code locals name argc _ hbody hcall hname ih =>
      obtain rfl | rfl := ih
      · obtain ⟨rfl, rfl⟩ := Body.script.inj hbody
        obtain ⟨rfl, _⟩ : name = "sleep" ∧ argc = 1 := by simpa using hcall
        exact Or.inr (Option.some.inj (hname.symm.trans (by decide)))
      · cases hbody
  intro q hq
  obtain rfl | rfl := hreaches q hq
  · refine ⟨by decide, ?_⟩
    show ∀ instr ∈ _, _
    decide
  · exact ⟨by decide, fun i _ => Builtins.sleep_mute i⟩

theorem crowded_keeps_to_itself : crowded.runtime.Secluded ⟨1, "main"⟩ ∧
    ∃ v c rt, crowded.runtime.Called Eq ⟨1, "main"⟩ { arguments := ⟨[.int 2], ∅⟩ }
      [(v, .deferred (.ticks 2)), (.int 3, .returned)] c rt := by
  let op : Operation :=
    .callAsync ⟨1, "main"⟩ { arguments := ⟨[.int 2], ∅⟩ } (some fun _ => .done ())
  have hperforms :
      ((crowded.performAll 20 [op, .spawn ⟨3, "crash"⟩ {}, .tick, .spawn ⟨4, "flood"⟩
        {}, .tick]).map
      fun q => (q.1.map Episode.started?, q.1.flatMap Episode.deeds)) = some (
        [some 1, some 2, none, some 3, none],
        [.created 1, .stopped 1 (.deferred (.ticks 2)), .filed 1 2, .created 2,
          .stopped 2 (.faulted (.script "no")),
          .ticked 1, .created 3, .stopped 3 (.faulted (.stackOverflow 3)), .ticked 2, .resumed 1,
            .stopped 1 .returned,
          .completed 1 (.int 3)]) := by decide +kernel
  obtain ⟨⟨episodes, h'⟩, hperform, heq⟩ := Option.map_eq_some_iff.mp hperforms
  obtain ⟨hstarts, hdeeds⟩ := Prod.mk.inj heq
  obtain ⟨start, rest, rfl, hstart, _⟩ := List.map_eq_cons_iff.mp hstarts
  have hop : start.operation = op := (List.cons.inj (operations_of_performAll hperform)).1
  obtain ⟨⟨_, _, hhosted⟩, _⟩ :=
    Runtime.Secluded.keepsToItself crowded_secluded { arguments := ⟨[.int 2], ∅⟩ }
  obtain ⟨id, hstarted, seen, c, ⟨rt, hcalled⟩, hstops, hcompleted⟩ :=
    hhosted crowded crowded h' [] start rest _
    ⟨rfl, rfl, rfl⟩ (.nil crowded) rfl (runs_of_performAll hperform) (Or.inl hop)
  obtain rfl : id = 1 := Option.some.inj (hstarted.symm.trans hstart)
  rw [List.nil_append, hdeeds] at hstops hcompleted
  have hlast := ((hcompleted _ rfl (.int 3)).mp (by simp)).2
  obtain ⟨⟨v, s⟩, seen, rfl, hs, hseen⟩ := List.map_eq_cons_iff.mp hstops.symm
  obtain ⟨⟨v', s'⟩, seen, rfl, hs', hseen⟩ := List.map_eq_cons_iff.mp hseen
  obtain rfl := List.map_eq_nil_iff.mp hseen
  cases hs
  cases hs'
  obtain ⟨rfl, _⟩ := Prod.mk.inj (Option.some.inj hlast)
  exact ⟨crowded_secluded, v, c, rt, hcalled⟩

end Host

end ProcEngine
