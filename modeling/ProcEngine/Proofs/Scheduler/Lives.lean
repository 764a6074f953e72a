import ProcEngine.Proofs.Context.Company
import ProcEngine.Proofs.Scheduler.Completions
import ProcEngine.Proofs.Scheduler.Safety
import ProcEngine.Proofs.Scheduler.Waking
/-!
# What a host does to a context that it has started

It resumes the context now and then, and works on others in between: the states in which the context
stops, as the chronicle has them, are those of its resumes, and what is handed to its completion is
what the last of them has given.
-/

namespace ProcEngine

open Chronicle

/-! ### Stops in a chronicle -/

def Milestone.stop? (id : ContextId) : Milestone → Option ContextState
  | .stopped c s => if c = id then some s else none
  | _ => none

namespace Chronicle

variable {id : ContextId} {log later : List Milestone}

/-- The states in which a context has stopped, the earliest first. -/
def stops (id : ContextId) (log : List Milestone) : List ContextState :=
  log.reverse.filterMap (Milestone.stop? id)

@[simp] theorem stops_stopped (id : ContextId) (s : ContextState) (log : List Milestone) :
    stops id (.stopped id s :: log) = stops id log ++ [s] := by
  simp [stops, Milestone.stop?]

theorem stops_append (h : ∀ s, .stopped id s ∉ later) (log : List Milestone) :
    stops id (later ++ log) = stops id log := by
  have hnone : later.reverse.filterMap (Milestone.stop? id) = [] := by
    refine List.filterMap_eq_nil_iff.mpr fun m hm => ?_
    cases m with
    | stopped c s =>
      simp only [Milestone.stop?]
      rw [if_neg]
      rintro rfl
      exact h s (List.mem_reverse.mp hm)
    | _ => rfl
  rw [stops, List.reverse_append, List.filterMap_append, hnone, List.append_nil, stops]

theorem stops_cons {m : Milestone} (h : ∀ s, m ≠ .stopped id s) (log : List Milestone) :
    stops id (m :: log) = stops id log := by
  have hnever : ∀ s, .stopped id s ∉ [m] := by simpa using fun s => (h s).symm
  exact stops_append hnever log

theorem stops_of_new (h : standing id log = none) : stops id log = [] := by
  have hnever : ∀ s, .stopped id s ∉ log := by
    induction log with
    | nil => simp
    | cons m log ih =>
      cases m with
      | filed c t | completed c v | ticked t => simpa using ih h
      | created c | resumed c | stopped c s =>
        rw [standing] at h
        split at h
        · cases h
        · rename_i hc
          simpa [Ne.symm hc] using ih h
  rw [← List.append_nil log, stops_append hnever]
  rfl

theorem not_stopped_of_running (h : Lawful (later ++ log)) (hrun : ∀ m ∈ later, m.IsRun)
    (hbefore : standing id log = some .running)
    (hafter : standing id (later ++ log) = some .running) :
    ∀ s, .stopped id s ∉ later := by
  -- Nothing makes it run again after a stop, since it has been created already.
  have hknown : standing id (later ++ log) ≠ none ∧
      (standing id (later ++ log) = some .running → ∀ s, .stopped id s ∉ later) := by
    clear hafter
    induction later with
    | nil => simp [hbefore]
    | cons m later ih =>
      obtain ⟨hknown, hnever⟩ := ih h.1 fun m hm => hrun m (List.mem_cons_of_mem _ hm)
      have hm := hrun m List.mem_cons_self
      have hfits := h.2
      cases m with
      | created c =>
        have hc : c ≠ id := by
          rintro rfl
          exact hknown hfits
        simp only [List.cons_append, standing, hc, if_false]
        exact ⟨hknown, fun hrunning s => by simpa using hnever hrunning s⟩
      | stopped c s =>
        simp only [List.cons_append, standing]
        by_cases hc : c = id
        · simp [hc]
        · rw [if_neg hc]
          exact ⟨hknown, fun hrunning s => by simpa [Ne.symm hc] using hnever hrunning s⟩
      | filed c t | completed c v | resumed c | ticked t => exact hm.elim
  exact hknown.2 hafter

theorem deferred_of_resumed (h : Lawful (.resumed id :: log)) :
    ∃ w, standing id log = some (.stopped (.deferred w)) := by
  obtain hexternal | ⟨e, he, rfl, _⟩ := h.2
  · exact ⟨_, hexternal⟩
  · obtain ⟨n, hn⟩ := standing_of_pending h.1 he
    exact ⟨_, hn⟩

end Chronicle

/-! ### Lives -/

variable {rt₀ rt rt' : Runtime} {p : ProcRef} {i : Invocation} {k : Option Completion}
  {f : Completion}
  {id : ContextId} {s s' : Scheduler} {active : List ContextId} {seen : List (Value × ContextState)}

/-- The context `id` has come of a call of `p` in `rt₀`. It waits in the map, with its completion,
or it has finished and its completion has got the value that the last resume has given. -/
structure Lives (rt₀ : Runtime) (p : ProcRef) (i : Invocation) (k : Option Completion)
    (id : ContextId)
    (seen : List (Value × ContextState)) (c : Context) (s : Scheduler) (rt : Runtime) : Prop where
  called : rt₀.Called Runtime.Steady p i seen c rt
  stops : stops id rt.chronicle = seen.map Prod.snd
  standing : standing id rt.chronicle = some (.stopped c.state)
  place : s.parked[id]? = some { context := c, completion := k } ∨ c.isFinished ∧
    ∀ f, k = some f → ∃ v, .completed id v ∈ rt.chronicle ∧ seen.getLast? = some (v, c.state)

namespace Lives

variable {c : Context}

/-- The completion has been run if the context has finished, and then with the value of its last
resume. -/
theorem completed_iff (h : Lives rt₀ p i (some f) id seen c s rt) (hbooks : Books [] s rt)
    (v : Value) :
    .completed id v ∈ rt.chronicle ↔ c.isFinished ∧ seen.getLast? = some (v, c.state) := by
  have hparked : s.parked[id]? = some { context := c, completion := some f } → ¬ c.isFinished := by
    intro hq
    obtain ⟨_, _, w, hw⟩ := hbooks.parked id _ hq
    simp [Context.isFinished, show c.state = .deferred w from hw]
  constructor
  · intro hm
    obtain ⟨later, log, hlog⟩ := List.append_of_mem hm
    have hlawful := hbooks.lawful
    rw [hlog] at hlawful
    obtain ⟨s', log', rfl, hs'⟩ := finished_of_completed hlawful
    have hstanding : Chronicle.standing id rt.chronicle = some (.stopped s') := by
      refine standing_of_finished hs' hbooks.lawful ?_
      simp [hlog]
    obtain rfl : c.state = s' := by simpa using h.standing.symm.trans hstanding
    have hfinished : c.isFinished := by
      obtain hstate | ⟨why, hstate⟩ := hs' <;> simp [Context.isFinished, hstate]
    obtain hq | ⟨_, hcompleted⟩ := h.place
    · exact absurd hfinished (hparked hq)
    · obtain ⟨v', hv', hlast⟩ := hcompleted f rfl
      have hsame : v' = v := by
        have hnever := completed_once hlawful v'
        rw [hlog, List.mem_append, List.mem_cons] at hv'
        simpa [hnever.1, hnever.2] using hv'
      exact ⟨hfinished, hsame ▸ hlast⟩
  · rintro ⟨hfinished, hlast⟩
    obtain hq | ⟨_, hcompleted⟩ := h.place
    · exact absurd hfinished (hparked hq)
    · obtain ⟨v', hv', hlast'⟩ := hcompleted f rfl
      obtain ⟨rfl, _⟩ := Prod.mk.inj (Option.some.inj (hlast.symm.trans hlast'))
      exact hv'

/-- As long as nobody takes it up, a context stays as it is. -/
theorem later (h : Lives rt₀ p i k id seen c s rt) (hsteady : rt.Steady rt') {log : List Milestone}
    (hlog : rt'.chronicle = log ++ rt.chronicle) (hlawful : Lawful rt'.chronicle)
    (hno : .resumed id ∉ log) (hkept : ∀ q, s.parked[id]? = some q → s'.parked[id]? = some q) :
    Lives rt₀ p i k id seen c s' rt' := by
  rw [hlog] at hlawful
  obtain ⟨hstanding, hnever⟩ := standing_of_not_resumed hlawful hno h.standing
  exact {
    called := h.called.others hsteady
    stops := by rw [hlog, stops_append hnever, h.stops]
    standing := hlog ▸ hstanding
    place := by
      refine h.place.imp (hkept _) fun ⟨hfinished, hcompleted⟩ => ⟨hfinished, fun f hf => ?_⟩
      obtain ⟨v, hv, hlast⟩ := hcompleted f hf
      exact ⟨v, hlog ▸ List.mem_append_right _ hv, hlast⟩ }

end Lives

namespace Scheduler

/-! ### Driving -/

theorem stops_of_keeps (h : Keeps rt rt') (hbooks : Books (id :: active) s rt) :
    Chronicle.stops id rt'.chronicle = Chronicle.stops id rt.chronicle := by
  have hran : Books (id :: active) s rt' := h.books _ s hbooks
  obtain ⟨ran, hlog, hruns⟩ := h.adds
  rw [hlog]
  refine stops_append (not_stopped_of_running (hlog ▸ hran.lawful) hruns ?_ (hlog ▸ ?_)) _
  · exact (hbooks.runs id).mpr List.mem_cons_self
  · exact (hran.runs id).mpr List.mem_cons_self

theorem park_quiet (fuel : Nat) {q : Parked} (v : Value) (hready : q.context.state ≠ .ready)
    (h : Books (q.context.id :: active) s rt) :
    (s.park fuel q v (rt.record (.stopped q.context.id q.context.state))).Gives fun s' rt' =>
      Adds Milestone.IsQuiet s (rt.record (.stopped q.context.id q.context.state)) s' rt' := by
  have hstopped := h.stopped hready
  cases hfinished : q.context.isFinished with
  | false =>
    rw [hfinished, if_neg Bool.false_ne_true] at hstopped
    have hparked := park_adrift fuel (rt.record (.stopped q.context.id q.context.state)) v hstopped
    exact hparked.mono fun s' rt' ⟨_, _, hadds⟩ => hadds.mono fun _ => Milestone.IsFiling.isQuiet
  | true =>
    rw [hfinished, if_pos rfl] at hstopped
    have hparked :=
      park_finished fuel (rt.record (.stopped q.context.id q.context.state)) hfinished
        v hstopped rfl
    exact hparked.mono fun s' rt' ⟨hsame, _, hadds⟩ => hsame ▸ hadds

/-- Whoever has stopped is parked or completed, and others that are adrift are adopted. -/
theorem stop_lives (fuel : Nat) {c : Context} {v : Value} (hready : c.state ≠ .ready)
    (hbooks : Books (c.id :: active) s rt)
    (hcourse : ∃ past, Course past c) (htend : Tending Runtime.Steady rt s rt)
    (hcalled : rt₀.Called Runtime.Steady p i seen c rt) (hlast : seen.getLast? = some (v, c.state))
    (hstops : stops c.id (rt.record (.stopped c.id c.state)).chronicle = seen.map Prod.snd) :
    ((s.park fuel { context := c, completion := k } v >>= Scheduler.adopt fuel)
      (rt.record (.stopped c.id c.state))).Gives fun s' rt' =>
        Lives rt₀ p i k c.id seen c s' rt' := by
  let q : Parked := { context := c, completion := k }
  let rt₁ := rt.record (.stopped c.id c.state)
  have htend₁ : Tending Runtime.Steady rt₁ s rt₁ := htend.rebase rfl
  have hparked :=
    ((park_delivers fuel (q := q) v hready hbooks).and
      (park_quiet fuel (q := q) v hready hbooks)).and
    (htend₁.park Runtime.Steady.upkept fuel (p := q) hcourse v)
  refine Act.gives_bind hparked fun s₂ rt₂ ⟨⟨⟨hbooks₂, _, hplace⟩, hquiet⟩, htend₂⟩ => ?_
  have hadopted := ((adopt_gives fuel hbooks₂ hquiet).and (adopt_undisturbed fuel hbooks₂)).and
    (htend₂.adopt Runtime.Steady.upkept fuel)
  refine hadopted.mono fun s' rt' ⟨⟨hsettles, hkeeps, hsuffix⟩, htend'⟩ => ?_
  obtain ⟨log, hlog, hlogquiet⟩ := hsettles.quiet.adds
  have hlawful := hsettles.books.lawful
  rw [hlog] at hlawful
  have hstopped : Chronicle.standing c.id rt₁.chronicle = some (.stopped c.state) := if_pos rfl
  obtain ⟨hstanding, hnever⟩ := standing_of_not_resumed hlawful (fun hm => hlogquiet _ hm) hstopped
  have hrecorded : rt.Steady rt₁ := .of_eq rfl rfl
  exact {
    called := hcalled.others (hrecorded.trans htend'.since)
    stops := by rw [hlog, stops_append hnever, hstops]
    standing := hlog ▸ hstanding
    place := by
      cases hfinished : c.isFinished with
      | false =>
        rw [hfinished, if_neg Bool.false_ne_true] at hplace
        exact Or.inl (hkeeps _ _ hplace)
      | true =>
        rw [hfinished, if_pos rfl] at hplace
        refine Or.inr ⟨rfl, fun f hf => ⟨v, hsuffix.subset ?_, hlast⟩⟩
        have hrun := (Keeping.completion fuel f c.id v rt₁).of_ok (hplace f hf)
        exact hrun.suffix.subset List.mem_cons_self }

/-- Whoever is driven has been resumed once more. -/
theorem drive_lives (fuel : Nat) {q : Parked} (hbooks : Books (q.context.id :: active) s rt)
    (htend : Tending Runtime.Steady rt s rt) (hunder : q.context.UnderWay)
    (hcalled : rt₀.Called Runtime.Steady p i seen q.context rt)
    (hstops : stops q.context.id rt.chronicle = seen.map Prod.snd) :
    (s.drive fuel q rt).Gives fun s' rt' =>
      ∃ seen c, Lives rt₀ p i q.completion q.context.id seen c s' rt' := by
  have hgives :=
    (Reporting.upkept.resume fuel q.context rt hunder).and
      (Context.resume_isLawful fuel q.context rt)
  refine Act.gives_bind (hgives.and hgives.result)
    fun ⟨v, c⟩ rt₁ ⟨⟨⟨hcourse, hreporting⟩, hkept, hid, hready⟩, hresume⟩ =>
    Runtime.recording_gives ?_
  dsimp only at hid hready hcourse hreporting hresume ⊢
  rw [← hid] at hbooks hstops ⊢
  have htend₁ : Tending Runtime.Steady rt₁ s rt₁ :=
    ⟨htend.parked, hreporting.detached htend.detached, .refl rt₁⟩
  have hseen : stops c.id (rt₁.record (.stopped c.id c.state)).chronicle =
      (seen ++ [(v, c.state)]).map Prod.snd := by
    show stops c.id (.stopped c.id c.state :: rt₁.chronicle) = _
    rw [stops_stopped, stops_of_keeps hkept hbooks, hstops, List.map_append]
    rfl
  exact (stop_lives fuel hready (hkept.books _ s hbooks) hcourse htend₁ (hcalled.resume hresume)
    List.getLast?_concat
    hseen).mono fun s' rt' hlives => ⟨_, c, hlives⟩

/-- What a scheduler does to others, and what it does to the context when it is its turn. -/
theorem rouse_lives (fuel : Nat) {q : Parked} (h : ∃ seen c, Lives rt₀ p i k id seen c s rt)
    (htend : Tending Runtime.Steady rt s rt) (hq : s.parked[q.context.id]? = some q)
    (hbooks : Books [q.context.id] { s with parked := s.parked.erase q.context.id }
      (rt.record (.resumed q.context.id))) :
    (s.rouse fuel q rt).Gives fun s' rt' => ∃ seen c, Lives rt₀ p i k id seen c s' rt' := by
  obtain ⟨seen, c, hlives⟩ := h
  have hunder := htend.parked _ q hq
  by_cases hid : q.context.id = id
  · subst hid
    obtain ⟨w, hw⟩ := deferred_of_resumed hbooks.lawful
    have hstate : c.state = .deferred w := by
      have hstanding := hlives.standing.symm.trans hw
      simpa using hstanding
    have hparked :=
      hlives.place.resolve_right fun hfinished => by simp [Context.isFinished, hstate] at hfinished
    obtain rfl := Option.some.inj (hq.symm.trans hparked)
    have htaken :=
      ((htend.record Runtime.Steady.upkept (m := .resumed c.id) rfl).erase c.id).rebase rfl
    refine Runtime.recording_gives
      (drive_lives fuel hbooks htaken hunder (hlives.called.others (.of_eq rfl rfl)) ?_)
    exact (stops_cons (by simp) _).trans hlives.stops
  · have hother := (rouse_gives fuel hbooks).and (htend.rouse Runtime.Steady.upkept fuel hunder)
    have hkept : (s.rouse fuel q rt).Gives fun s' _ => ∀ q', s.parked[id]? = some q' →
        s'.parked[id]? = some q' := by
      refine Runtime.recording_gives
        ((drive_delivers fuel hbooks).mono fun s' rt' hdelivers q' hq' => ?_)
      refine hdelivers.1 id q' ?_
      rwa [Std.ExtTreeMap.getElem?_erase, if_neg (by simpa using hid)]
    refine (hother.and hkept).mono fun s' rt' hleft => ⟨seen, c, ?_⟩
    obtain ⟨⟨hsettles, htend'⟩, hkept⟩ := hleft
    obtain ⟨log, hlog, hquiet⟩ := hsettles.quiet.adds
    have hlog : rt'.chronicle = (log ++ [.resumed q.context.id]) ++ rt.chronicle := by
      rw [hlog, List.append_assoc]
      rfl
    refine hlives.later htend'.since hlog hsettles.books.lawful ?_ hkept
    · rw [List.mem_append, List.mem_singleton, Milestone.resumed.injEq]
      exact fun hm => hm.elim (fun hm => hquiet _ hm) fun heq => hid heq.symm

theorem wake_lives (fuel : Nat) (c : ContextId) (h : ∃ seen c, Lives rt₀ p i k id seen c s rt)
    (htend : Tending Runtime.Steady rt s rt) (hbooks : Books [] s rt) :
    (s.wake fuel c rt).Gives fun r rt' => ∃ seen c, Lives rt₀ p i k id seen c r.2 rt' := by
  simp only [wake]
  cases hq : s.parked[c]? with
  | none => exact h
  | some q =>
    dsimp only
    split <;> rename_i hstate
    · obtain ⟨rfl, _⟩ := hbooks.parked c q hq
      exact Act.gives_bind (rouse_lives fuel h htend hq (hbooks.woken hq hstate)) fun s' rt' h' =>
        h'
    · exact h

theorem advance_lives (fuel : Nat) (h : ∃ seen c, Lives rt₀ p i k id seen c s rt)
    (htend : Tending Runtime.Steady rt s rt) (hbooks : Books [] s rt) (hcalm : Calm rt.chronicle) :
    (s.advance fuel rt).Gives fun r rt' => ∃ seen c, Lives rt₀ p i k id seen c r.2 rt' := by
  have hopened := ((opens fuel hbooks hcalm).and (adopt_undisturbed fuel hbooks)).and
    (htend.adopt Runtime.Steady.upkept fuel)
  refine Act.gives_bind hopened fun s₁ rt₁ ⟨⟨hopens, hundisturbed, _⟩, htend₁⟩ =>
    Runtime.recording_gives ?_
  obtain ⟨filings, hlog, hfilings⟩ := hopens.adds
  have hticked := (htend₁.record Runtime.Steady.upkept (m := .ticked (s₁.tick + 1)) rfl)
  have h₁ : ∃ seen c, Lives rt₀ p i k id seen c { s₁ with tick := s₁.tick + 1 }
      (rt₁.record (.ticked (s₁.tick + 1))) := by
    obtain ⟨seen, c, hlives⟩ := h
    have hlog : (rt₁.record (.ticked (s₁.tick + 1))).chronicle =
        (.ticked (s₁.tick + 1) :: filings) ++ rt.chronicle := by
      rw [List.cons_append, ← hlog]
      rfl
    refine ⟨seen, c, hlives.later hticked.since hlog hopens.books.lawful ?_ (hundisturbed id)⟩
    rw [List.mem_cons, not_or]
    exact ⟨by simp, fun hm => hfilings _ hm⟩
  refine (resumeDue_keeps (P := fun s rt => (∃ seen c, Lives rt₀ p i k id seen c s rt) ∧
    Tending Runtime.Steady rt s rt)
    ?_ ?_ fuel 0 ⟨h₁, ?_⟩ hopens.books hopens.settled).mono fun r rt' hr => hr.1
  · rintro s rt sleepers ⟨⟨seen, c, h⟩, htend⟩
    exact ⟨⟨seen, c, h.called, h.stops, h.standing, h.place⟩, htend.parked,
      htend.detached, htend.since⟩
  · rintro fuel s rt q ⟨h, htend⟩ hq hbooks
    have hrested := htend.rouse Runtime.Steady.upkept fuel (htend.parked _ q hq)
    exact ((rouse_lives fuel h htend hq hbooks).and hrested).mono fun s' rt' hleft =>
      ⟨hleft.1, hleft.2.rebase rfl⟩
  · exact ⟨hticked.parked, hticked.detached, .refl _⟩

theorem refused_lives (s : Scheduler) (p : ProcRef) (i : Invocation) (hdepth : rt.maxDepth = 0)
    (hstops : stops (rt.contexts + 1) (rt.opened p i).2.chronicle = []) :
    Lives rt p i none (rt.contexts + 1) [(.null, .faulted (.stackOverflow rt.maxDepth))]
      (rt.abort rt.newContext.1 (.stackOverflow rt.maxDepth)).1 s (rt.refused p i) where
  called := .refused hdepth .start
  stops := by
    show stops _ (.stopped _ _ :: (rt.opened p i).2.chronicle) = _
    rw [stops_stopped, hstops]
    rfl
  standing := if_pos rfl
  place := Or.inr ⟨rfl, fun f hf => by cases hf⟩

theorem callAsync_lives (fuel : Nat) (p : ProcRef) (i : Invocation) (k : Option Completion)
    (htend : Tending Runtime.Steady rt s rt) (hbooks : Books [] s rt)
    (hshallow : rt.maxDepth = 0 → rt.detached = #[]) :
    (s.callAsync fuel p i k rt).Gives fun r rt' => ∃ seen c, Lives rt p i k r.1 seen c r.2 rt' := by
  have hstops : stops (rt.contexts + 1) (rt.opened p i).2.chronicle = [] := by
    rw [Runtime.opened_chronicle, stops_cons (by simp), stops_of_new hbooks.new]
  have hsettles := callAsync_gives fuel p i k hbooks hshallow
  suffices hlives : (s.callAsync fuel p i k rt).Gives fun r rt' =>
      Lawful rt'.chronicle → ∃ seen c, Lives rt p i k r.1 seen c r.2 rt' from
    (hlives.and hsettles).mono fun r rt' ⟨hlives, hsettles⟩ => hlives hsettles.books.lawful
  rw [callAsync_eq]
  by_cases hdepth : rt.maxDepth = 0
  · rw [if_pos hdepth]
    have hlives := refused_lives s p i hdepth hstops
    cases k with
    | none => exact fun _ => ⟨_, _, hlives⟩
    | some f =>
      have hran := (Keeping.completion fuel f (rt.contexts + 1) .null (rt.refused p i)).and
        (Runtime.Steady.upkept.completion fuel f (rt.contexts + 1) .null (rt.refused p i))
      refine Act.gives_bind hran fun _ rt' ⟨hkept, hsteady⟩ hlawful => ?_
      obtain ⟨log, hlog, hruns⟩ := hkept.adds
      have hlog : rt'.chronicle = (log ++ [.completed (rt.contexts + 1) .null]) ++
          (rt.refused p i).chronicle := by
        rw [hlog, List.append_assoc]
        rfl
      have hrecorded :
          (rt.refused p i).Steady ((rt.refused p i).record (.completed (rt.contexts + 1) .null)) :=
        .of_eq rfl rfl
      have hno : .resumed (rt.contexts + 1) ∉ log ++ [.completed (rt.contexts + 1) .null] := by
        rw [List.mem_append, not_or]
        exact ⟨fun hm => hruns _ hm, by simp⟩
      have hlater := hlives.later (hrecorded.trans hsteady) hlog hlawful hno fun _ hq => hq
      refine ⟨_, _, { hlater with place := Or.inr ⟨rfl, fun f' hf => ⟨.null, ?_, rfl⟩⟩ }⟩
      exact hkept.suffix.subset List.mem_cons_self
  · rw [if_neg hdepth]
    have hbegun : Books [(rt.opened p i).1.id] s (rt.opened p i).2 :=
      (Keeps.opened rt p i).books [(rt.opened p i).1.id] s hbooks.created
    have htend' :=
      (htend.later (Reporting.upkept.opened rt p i) (Runtime.Steady.opened rt p i)).rebase rfl
    have hdriven :=
      drive_lives fuel (q := { context := (rt.opened p i).1, completion := k }) hbegun htend'
      (Runtime.opened_underWay hdepth p i) (.opened hdepth .start) hstops
    exact Act.gives_bind hdriven fun s' rt' h _ => h

end Scheduler

/-! ### Operations and runs -/

/-- The operation starts `p` as called by `i`, and hands it the completion `k` if there is one. -/
def Operation.Starts (op : Operation) (p : ProcRef) (i : Invocation) (k : Option Completion) :
    Prop :=
  op = .callAsync p i k ∨ op = .spawn p i ∧ k = none

namespace Host

variable {h h₁ h' : Host} {e : Episode} {before after episodes : List Episode}

theorem lives_perform {fuel : Nat} {op : Operation} (hin : h.InOrder)
    (htend : Tending Runtime.Steady h.runtime h.scheduler h.runtime)
    (hlives : ∃ seen c, Lives rt₀ p i k id seen c h.scheduler h.runtime)
    (hperform : h.perform fuel op = some (e, h')) :
    ∃ seen c, Lives rt₀ p i k id seen c h'.scheduler h'.runtime := by
  let Q (_ : Episode) (h' : Host) : Prop :=
    Lawful h'.runtime.chronicle → ∃ seen c, Lives rt₀ p i k id seen c h'.scheduler h'.runtime
  suffices hafter : Q e h' from hafter (Host.passes hin hperform).inOrder.books.lawful
  have hleft {α : Type} {x : Act Runtime α} (hx : Keeping x) (hx' : Act.Preserves Runtime.Steady x)
      (f : α → Answer)
      (hact : op.act fuel h.scheduler = x >>= fun a => Pure.pure (f a, h.scheduler)) : Q e h' := by
    refine of_preserves (Q := Q)
      (hx.and hx') f hact (fun answer rt ⟨hkeeps, hsteady⟩ hlawful => ?_) hperform
    obtain ⟨seen, c, hlives⟩ := hlives
    obtain ⟨log, hlog, hruns⟩ := hkeeps.adds
    exact ⟨seen, c, hlives.later hsteady hlog hlawful (fun hm => hruns _ hm) fun _ hq => hq⟩
  have hstart (p' : ProcRef) (i' : Invocation) (k' : Option Completion)
      (hact : op.act fuel h.scheduler =
        h.scheduler.callAsync fuel p' i' k' >>= fun q => Pure.pure (.context q.1, q.2)) :
          Q e h' := by
    have hgives := ((Scheduler.callAsync_delivers fuel p' i' k' hin.books).and
      (Scheduler.callAsync_gives fuel p' i' k' hin.books hin.shallow)).and
      (htend.callAsync Runtime.Steady.upkept fuel p' i' k')
    refine of_start (Q := Q) hact (hgives.mono fun r rt ⟨⟨hdelivers, hsettles⟩, htend'⟩ hlawful =>
      ?_) hperform
    obtain ⟨seen, c, hlives⟩ := hlives
    obtain ⟨log, hlog, hquiet⟩ := hsettles.quiet.adds
    exact ⟨seen, c, hlives.later htend'.since hlog hlawful (fun hm => hquiet _ hm)
      (hdelivers.2.1 id)⟩
  have hupkept := Runtime.Steady.upkept
  have hcalled := hupkept.callWith (hupkept.resume fuel)
  cases op with
  | run p i => exact hleft (Keeping.call fuel p i) (hcalled p i) _ rfl
  | callOn o name arguments usr =>
    exact hleft (Keeping.callOn fuel o name arguments usr)
      ((Carried.ask _).bind fun p => hcalled p _) _ rfl
  | newObject path arguments usr =>
    exact hleft (Keeping.newObject fuel path arguments usr)
      (hupkept.carried.serve hcalled fuel (.construct path arguments usr)) _ rfl
  | spawn p i => exact hstart p i none rfl
  | callAsync p i k => exact hstart p i k rfl
  | wake c =>
    refine of_gives (Q := Q) ?_ hperform
    exact Act.gives_bind (Scheduler.wake_lives fuel c hlives htend hin.books) fun r rt h _ => h
  | tick =>
    refine of_gives (Q := Q) ?_ hperform
    exact Act.gives_bind (Scheduler.advance_lives fuel hlives htend hin.books hin.calm)
      fun r rt h _ => h

theorem Runs.lives (hin : h.InOrder)
    (htend : Tending Runtime.Steady h.runtime h.scheduler h.runtime)
    (hlives : ∃ seen c, Lives rt₀ p i k id seen c h.scheduler h.runtime)
    (hruns : h.Runs episodes h') :
    ∃ seen c, Lives rt₀ p i k id seen c h'.scheduler h'.runtime := by
  induction hruns with
  | nil => exact hlives
  | cons hperform _ ih =>
    have htend' := (htend.perform Runtime.Steady.upkept hperform).rebase rfl
    exact ih (Host.passes hin hperform).inOrder htend' (lives_perform hin htend hlives hperform)

theorem Runs.starts_lives (hin : h.InOrder)
    (htend : Tending Runtime.Steady h.runtime h.scheduler h.runtime)
    (hruns : h.Runs (e :: after) h') (hstarts : e.operation.Starts p i k) :
    ∃ id, e.started? = some id ∧
      ∃ seen c, Lives h.runtime p i k id seen c h'.scheduler h'.runtime := by
  cases hruns with
  | @cons fuel _ h₂ _ op _ _ hperform hafter =>
    have hin₂ := (Host.passes hin hperform).inOrder
    have htend₂ := (htend.perform Runtime.Steady.upkept hperform).rebase rfl
    let Q (e : Episode) (h₂ : Host) : Prop :=
      ∃ id, e.started? = some id ∧ ∃ seen c, Lives h.runtime p i k id seen c h₂.scheduler h₂.runtime
    have hcalled := Scheduler.callAsync_lives fuel p i k htend hin.books hin.shallow
    have hbegun : Q e h₂ := by
      rw [operation_of_perform hperform] at hstarts
      obtain rfl | ⟨rfl, rfl⟩ := hstarts
      · exact of_start (Q := Q) rfl (hcalled.mono fun r rt hlives => ⟨r.1, rfl, hlives⟩) hperform
      · exact of_start (Q := Q) rfl (hcalled.mono fun r rt hlives => ⟨r.1, rfl, hlives⟩) hperform
    obtain ⟨id, hstarted, hlives⟩ := hbegun
    exact ⟨id, hstarted, hafter.lives hin₂ htend₂ hlives⟩

end Host

end ProcEngine
