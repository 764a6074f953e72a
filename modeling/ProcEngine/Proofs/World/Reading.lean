import ProcEngine.World.Format
/-!
# What is read stands in the document

A list is read item by item, and a member is read where it stands. So whatever is true of everything
in a document is true of what a part of it was read from.
-/

namespace ProcEngine

/-! ### Lists -/

namespace Format

theorem mem_mapM {α β : Type} {f : α → Option β} {l : List α} {l' : List β} (h : l.mapM f = some l')
    {b : β} (hb : b ∈ l') : ∃ a ∈ l, f a = some b := by
  induction l generalizing l' with
  | nil =>
    cases h
    simp at hb
  | cons a l ih =>
    rw [List.mapM_cons] at h
    obtain ⟨b', hb', h⟩ := Option.bind_eq_some_iff.mp h
    obtain ⟨rest, hrest, h⟩ := Option.bind_eq_some_iff.mp h
    cases h
    obtain rfl | hb := List.mem_cons.mp hb
    · exact ⟨a, List.mem_cons_self, hb'⟩
    · obtain ⟨a', ha', hread⟩ := ih hrest hb
      exact ⟨a', List.mem_cons_of_mem _ ha', hread⟩

/-- A list that is written item by item is read item by item. -/
theorem mapM_written {α β : Type} {read : β → Option α} {write : α → β} {l : List α}
    (h : ∀ a ∈ l, read (write a) = some a) : (l.map write).mapM read = some l := by
  induction l with
  | nil => rfl
  | cons a l ih =>
    rw [List.map_cons, List.mapM_cons, h a List.mem_cons_self,
      ih fun b hb => h b (List.mem_cons_of_mem a hb)]
    rfl

end Format

/-! ### Items and members -/

namespace Json

theorem itemsReadable_iff {depth : Nat} {items : List Json} :
    itemsReadable depth items ↔ ∀ j ∈ items, isReadable depth j := by
  induction items with
  | nil => simp [itemsReadable]
  | cons j rest ih => simp [itemsReadable, ih]

theorem membersReadable_iff {depth : Nat} {members : List (Option String × Json)} :
    membersReadable depth members ↔ ∀ m ∈ members, m.1.isSome ∧ isReadable depth m.2 := by
  induction members with
  | nil => simp [membersReadable]
  | cons m rest ih => simp [membersReadable, ih]

variable {j : Json} {members : List (String × Json)} {key : String}

/-- The members of an object are those that stand in it. -/
theorem mem_of_members? (h : j.members? = some members) :
    ∃ written, j = object written ∧ ∀ m ∈ members, (some m.1, m.2) ∈ written := by
  unfold members? at h
  split at h
  case h_2 => cases h
  case h_1 written =>
    refine ⟨written, rfl, fun m hm => ?_⟩
    obtain ⟨⟨key, j⟩, hin, hkey⟩ := Format.mem_mapM h hm
    obtain ⟨k, rfl, rfl⟩ := Option.map_eq_some_iff.mp hkey
    exact hin

theorem members?_written : (object (members.map fun m => (some m.1, m.2))).members? =
    some members :=
  Format.mapM_written fun _ _ => rfl

theorem mem_of_field? (h : field? members key = some (some j)) : (key, j) ∈ members := by
  unfold field? at h
  split at h
  case h_2 j' hvalues =>
    cases h
    have : j ∈ valuesOf members key := by simp [hvalues]
    simp only [valuesOf, List.mem_map, List.mem_filter, beq_iff_eq] at this
    obtain ⟨⟨_, _⟩, ⟨hm, rfl⟩, rfl⟩ := this
    exact hm
  all_goals cases h

end Json

end ProcEngine
