import ProcEngine.Proofs.Scheduler.Runs
/-!
# No context is lost

Whatever a host does, each context that is not finished is in one place, the list of the detached or
the map of the parked, and once. A host that has adopted everybody may therefore look at the map
alone.
-/

namespace ProcEngine

open Chronicle

def Finished (id : ContextId) (deeds : List Milestone) : Prop :=
  .stopped id .returned ∈ deeds ∨ ∃ why, .stopped id (.faulted why) ∈ deeds

/-- The contexts that the runtime and the scheduler hold. -/
def Host.held (h : Host) : List Context :=
  h.runtime.detached.toList ++ h.scheduler.parked.toList.map fun entry => entry.2.context

/-- What becomes of the contexts that a host has created. -/
structure Custody (h : Host) (deeds : List Milestone) : Prop where
  keyed : ∀ (id : ContextId) (p : Parked), h.scheduler.parked[id]? = some p → p.context.id = id
  once : (h.held.map Context.id).Nodup
  unfinished : ∀ c ∈ h.held, ¬ c.isFinished
  kept : ∀ id, id ∈ h.held.map Context.id ↔ .created id ∈ deeds ∧ ¬ Finished id deeds

theorem Custody.held_eq_nil_iff {h : Host} {deeds : List Milestone} (hcustody : Custody h deeds) :
    h.held = [] ↔ ∀ id, .created id ∈ deeds → Finished id deeds := by
  constructor
  · intro hnone id hcreated
    refine Classical.byContradiction fun hunfinished => ?_
    have hheld := (hcustody.kept id).mpr ⟨hcreated, hunfinished⟩
    simp [hnone] at hheld
  · intro hall
    refine List.eq_nil_iff_forall_not_mem.mpr fun c hc => ?_
    obtain ⟨hcreated, hunfinished⟩ := (hcustody.kept c.id).mp (List.mem_map.mpr ⟨c, hc, rfl⟩)
    exact hunfinished (hall c.id hcreated)

/-- An unfinished context that was created is asleep or waits, when nobody runs. -/
theorem Ledger.unfinished_iff {adrift : List Context} {s : Scheduler} {contexts : Nat}
    {log : List Milestone} (h : Ledger [] adrift s contexts log) (id : ContextId) :
    .created id ∈ log ∧ ¬ Finished id log ↔
      ∃ w, standing id log = some (.stopped (.deferred w)) := by
  constructor
  · intro ⟨hcreated, hunfinished⟩
    obtain ⟨st, hstanding⟩ :=
      Option.isSome_iff_exists.mp ((standing_isSome_iff h.lawful).mpr hcreated)
    cases st with
    | running => exact absurd ((h.runs id).mp hstanding) (by simp)
    | stopped s =>
      have hmem := mem_of_standing hstanding
      cases s with
      | ready => exact absurd rfl (ne_ready_of_stopped h.lawful hmem)
      | deferred w => exact ⟨w, hstanding⟩
      | returned => exact absurd (Or.inl hmem) hunfinished
      | faulted why => exact absurd (Or.inr ⟨why, hmem⟩) hunfinished
  · intro ⟨w, hstanding⟩
    refine ⟨(standing_isSome_iff h.lawful).mp (by rw [hstanding]; rfl), ?_⟩
    intro hfinished
    obtain hmem | ⟨why, hmem⟩ := hfinished
    · exact absurd (hstanding.symm.trans (standing_of_finished (Or.inl rfl) h.lawful hmem))
        (by simp)
    · exact absurd (hstanding.symm.trans (standing_of_finished (Or.inr ⟨why, rfl⟩) h.lawful hmem))
        (by simp)

namespace Host

variable {h h' : Host} {episodes : List Episode}

theorem parked_ids (hbooks : Books [] h.scheduler h.runtime) :
    (h.scheduler.parked.toList.map fun entry => entry.2.context).map Context.id =
      h.scheduler.parked.keys := by
  rw [← Std.ExtTreeMap.map_fst_toList_eq_keys, List.map_map]
  refine List.map_congr_left fun entry hentry => ?_
  exact (hbooks.parked entry.1 entry.2 (Std.ExtTreeMap.mem_toList_iff_getElem?_eq_some.mp hentry)).1

/-- Whoever the host holds has been deferred. -/
theorem deferred_of_held (hbooks : Books [] h.scheduler h.runtime) {c : Context} (hc : c ∈ h.held) :
    ∃ w, c.state = .deferred w ∧ standing c.id h.runtime.chronicle =
      some (.stopped (.deferred w)) := by
  obtain hc | hc := List.mem_append.mp hc
  · obtain ⟨hstanding, ⟨w, hw⟩, _⟩ := hbooks.floats c hc
    exact ⟨w, hw, hw ▸ hstanding⟩
  · obtain ⟨⟨id, p⟩, hentry, rfl⟩ := List.mem_map.mp hc
    obtain ⟨rfl, hstanding, w, hw⟩ :=
      hbooks.parked id p (Std.ExtTreeMap.mem_toList_iff_getElem?_eq_some.mp hentry)
    exact ⟨w, hw, hw ▸ hstanding⟩

theorem custody_of_books (hbooks : Books [] h.scheduler h.runtime) :
    Custody h h.runtime.chronicle where
  keyed id p hp := (hbooks.parked id p hp).1
  once := by
    rw [held, List.map_append, parked_ids hbooks]
    refine List.nodup_append.mpr ⟨hbooks.adrift_nodup, Std.ExtTreeMap.nodup_keys,
      fun id hid id' hid' heq => ?_⟩
    subst heq
    obtain ⟨c, hc, rfl⟩ := List.mem_map.mp hid
    have hsome := Std.ExtTreeMap.mem_iff_isSome_getElem?.mp (Std.ExtTreeMap.mem_of_mem_keys hid')
    rw [(hbooks.floats c hc).2.2] at hsome
    cases hsome
  unfinished c hc := by
    obtain ⟨w, hw, _⟩ := deferred_of_held hbooks hc
    simp [Context.isFinished, hw]
  kept id := by
    rw [hbooks.unfinished_iff]
    constructor
    · intro hid
      obtain ⟨c, hc, rfl⟩ := List.mem_map.mp hid
      obtain ⟨w, _, hstanding⟩ := deferred_of_held hbooks hc
      exact ⟨w, hstanding⟩
    · rintro ⟨w, hstanding⟩
      rw [held, List.map_append, parked_ids hbooks, List.mem_append]
      obtain hparked | hadrift := hbooks.kept id w hstanding
      · exact Or.inr
          (Std.ExtTreeMap.mem_keys.mpr (Std.ExtTreeMap.mem_iff_isSome_getElem?.mpr hparked))
      · exact Or.inl hadrift

/-- Whatever a host does, it holds every context that has been created and not finished, each of
them once. When nobody is left adrift, the scheduler is idle if and only if all are finished. -/
theorem Runs.custody (hfresh : h.IsFresh) (hruns : Runs h episodes h') :
    Custody h' (episodes.flatMap Episode.deeds) ∧
      ∀ before e, episodes = before ++ [e] → e.settles →
        h'.runtime.detached = #[] ∧
        (h'.scheduler.isIdle ↔ ∀ id, .created id ∈ episodes.flatMap Episode.deeds →
          Finished id (episodes.flatMap Episode.deeds)) := by
  have hin := hfresh.inOrder
  have hcustody := custody_of_books (hruns.inOrder hin).books
  rw [hruns.chronicle hin, hfresh.chronicle, List.append_nil] at hcustody
  have hcustody : Custody h' (episodes.flatMap Episode.deeds) := {
    keyed := hcustody.keyed
    once := hcustody.once
    unfinished := hcustody.unfinished
    kept := fun id => by simpa [Finished] using hcustody.kept id }
  refine ⟨hcustody, fun before e hepisodes hsettles => ?_⟩
  subst hepisodes
  obtain ⟨h₁, hbefore, hlast⟩ := hruns.split
  obtain ⟨h₂, hpasses, hdone⟩ := hlast.passes (hbefore.inOrder hin)
  cases hdone
  have hsettled := hpasses.settled hsettles
  refine ⟨hsettled, ?_⟩
  rw [← hcustody.held_eq_nil_iff, held, hsettled]
  simp [Scheduler.isIdle]

theorem naps_are_kept : ∃ episodes h', napping.Runs episodes h' ∧ h'.held.map Context.id = [1, 2] ∧
    Custody h' (episodes.flatMap Episode.deeds) ∧ h'.runtime.detached = #[] := by
  have hperforms : ((napping.performAll 9 [.run ⟨1, "nap"⟩ {}, .spawn ⟨1, "nap"⟩ {}]).map fun q =>
      (q.1.map Episode.settles, q.2.held.map Context.id)) = some ([false, true], [1, 2]) := by
        decide +kernel
  obtain ⟨⟨episodes, h'⟩, hperform, heq⟩ := Option.map_eq_some_iff.mp hperforms
  obtain ⟨hsettles, hheld⟩ := Prod.mk.inj heq
  obtain ⟨first, rest, rfl, _, hrest⟩ := List.map_eq_cons_iff.mp hsettles
  obtain ⟨last, rest, rfl, hsettled, hnil⟩ := List.map_eq_cons_iff.mp hrest
  obtain rfl := List.map_eq_nil_iff.mp hnil
  have hruns := runs_of_performAll hperform
  obtain ⟨hcustody, hlast⟩ := Runs.custody ⟨rfl, rfl, rfl⟩ hruns
  exact ⟨[first, last], h', hruns, hheld, hcustody, (hlast [first] last rfl hsettled).1⟩

end Host

end ProcEngine
