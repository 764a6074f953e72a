import ProcEngine.Arguments
/-!
# What arguments are bound to

Binding is meant to go by the header and by what was passed alone: each entry of the vector has one
origin (`Arguments.Entry`), the call is turned down for a name that is none of the parameters', or
else for the first value that its parameter does not take, and it is bound otherwise
(`Arguments.BindsTo`). In which order the named values are gone through makes no difference but for
which of several unknown names is complained of.
-/

namespace ProcEngine

/-- Null goes anywhere, and a parameter that lists no kinds takes anything. -/
def KindSet.Takes (s : KindSet) (v : Value) : Prop :=
  v = .null ∨ s.listed = [] ∨ ∃ k ∈ s.listed, v.kind.paramKind? = some k

theorem KindSet.admits_iff {s : KindSet} {v : Value} : s.admits v ↔ s.Takes v := by
  simp only [admits, accepts, Takes]
  cases v <;> simp [Value.kind, Kind.paramKind?]

namespace Signature

variable (sig : Signature)

/-- The parameter at `i` has this name, and no parameter before it has. -/
def First (i : Nat) (name : String) : Prop :=
  sig.params[i]? = some name ∧ ∀ j < i, sig.params[j]? ≠ some name

/-- A bound value that its parameter does not take. -/
def Refuses (bound : List Value) (i : Nat) (v : Value) : Prop :=
  ∃ kinds, sig.kinds[i]? = some kinds ∧ bound[i]? = some v ∧ ¬ kinds.Takes v

variable {sig} {i : Nat} {name : String}

theorem First.mem (h : sig.First i name) : name ∈ sig.params := List.mem_of_getElem? h.1

theorem First.unique {i' : Nat} {name' : String} (h : sig.First i name) (h' : sig.First i' name') :
    i = i' ↔ name = name' := by
  constructor
  · rintro rfl
    exact Option.some.inj (h.1.symm.trans h'.1)
  · rintro rfl
    obtain hlt | heq | hlt := Nat.lt_trichotomy i i'
    · exact absurd h.1 (h'.2 i hlt)
    · exact heq
    · exact absurd h'.1 (h.2 i' hlt)

theorem first_iff_idxOf : sig.First i name ↔ sig.params[i]? = some name ∧
    sig.params.idxOf name = i := by
  refine and_congr_right fun hi => ⟨fun hbefore => ?_, ?_⟩
  · have hlt := List.idxOf_lt_length_of_mem (List.mem_of_getElem? hi)
    obtain hlt' | heq | hlt' := Nat.lt_trichotomy (sig.params.idxOf name) i
    · refine absurd ?_ (hbefore _ hlt')
      rw [List.getElem?_eq_getElem hlt, List.getElem_idxOf]
    · exact heq
    · have hne := List.not_of_lt_findIdx hlt'
      obtain ⟨_, hname⟩ := List.getElem?_eq_some_iff.mp hi
      simp [hname] at hne
  · rintro rfl j hj hname
    have hne := List.not_of_lt_findIdx hj
    obtain ⟨_, hname⟩ := List.getElem?_eq_some_iff.mp hname
    simp [hname] at hne

theorem findIdx?_eq_some : sig.params.findIdx? (· == name) = some i ↔ sig.First i name := by
  rw [List.findIdx?_eq_some_iff_getElem]
  simp only [First, beq_iff_eq]
  constructor
  · rintro ⟨hi, hname, hbefore⟩
    exact ⟨List.getElem?_eq_some_iff.mpr ⟨hi, hname⟩, fun j hj hname' =>
      hbefore j hj (List.getElem?_eq_some_iff.mp hname').2⟩
  · rintro ⟨hname, hbefore⟩
    obtain ⟨hi, hname⟩ := List.getElem?_eq_some_iff.mp hname
    exact ⟨hi, hname,
      fun j hj hname' => hbefore j hj (List.getElem?_eq_some_iff.mpr ⟨Nat.lt_trans hj hi, hname'⟩)⟩

theorem findIdx?_eq_none : sig.params.findIdx? (· == name) = none ↔ name ∉ sig.params := by
  rw [List.findIdx?_eq_none_iff]
  simp only [beq_eq_false_iff_ne, ne_eq]
  exact ⟨fun h hmem => h name hmem rfl, fun h x hx heq => h (heq ▸ hx)⟩

end Signature

namespace Arguments

variable (a : Arguments) (sig : Signature)

/-! ### The specification -/

/-- Where the value at `i` comes from. -/
inductive Entry (i : Nat) : Value → Prop
  | named {name : String} {v : Value} : sig.First i name → a.named[name]? = some v → Entry i v
  | positional {v : Value} : (∀ name, sig.First i name → name ∉ a.named) →
    a.positional[i]? = some v → Entry i v
  | absent : (∀ name, sig.First i name → name ∉ a.named) → a.positional[i]? = none → Entry i .null

structure LaidOut (bound : List Value) : Prop where
  length : bound.length = max sig.params.length a.positional.length
  entry : ∀ i v, bound[i]? = some v → a.Entry sig i v

/-- Every name passed is that of a parameter. -/
def Known : Prop := ∀ name ∈ a.named, name ∈ sig.params

/-- What becomes of a call whose arguments are laid out as `bound`. -/
structure BindsTo (bound : List Value) (r : Except Fault (List Value)) : Prop where
  succeeds : (∃ values, r = .ok values) ↔ a.Known sig ∧ ∀ i v, ¬ sig.Refuses bound i v
  gives : ∀ values, r = .ok values → values = bound
  fails : ∀ e, r = .error e →
    (∃ name ∈ a.named, name ∉ sig.params ∧ e = .unknownArgument sig.name name) ∨
      a.Known sig ∧ ∃ i v, sig.Refuses bound i v ∧ (∀ j < i, ∀ w, ¬ sig.Refuses bound j w) ∧
        e = .typeMismatch (.argument sig.params[i]? sig.name v.kind)

variable {a sig}

theorem entry_slot (i : Nat) : a.Entry sig i (a.slot sig i) := by
  have hrest (hnone : ∀ name, sig.First i name → name ∉ a.named) : a.Entry sig i (a.get i) := by
    simp only [get]
    cases hi : a.positional[i]? with
    | some v => exact .positional hnone hi
    | none => exact .absent hnone hi
  simp only [slot]
  split
  · rename_i name hname
    split
    · rename_i hidx
      have hfirst : sig.First i name := Signature.first_iff_idxOf.mpr ⟨hname, hidx⟩
      cases hnamed : a.named[name]? with
      | some v => exact .named hfirst hnamed
      | none =>
        refine hrest fun name' hfirst' => ?_
        obtain rfl := (hfirst.unique hfirst').mp rfl
        rw [Std.ExtTreeMap.mem_iff_isSome_getElem?, hnamed]
        exact Bool.false_ne_true
    · rename_i hidx
      refine hrest fun name' hfirst' => absurd (Signature.first_iff_idxOf.mp hfirst').2 ?_
      obtain rfl := Option.some.inj (hname.symm.trans hfirst'.1)
      exact hidx
  · rename_i hnone
    exact hrest fun name' hfirst' => absurd (hnone.symm.trans hfirst'.1) (by simp)

theorem Entry.unique {i : Nat} {v w : Value} (h : a.Entry sig i v) (h' : a.Entry sig i w) :
    v = w := by
  have hnamed {name : String} {v : Value} (hfirst : sig.First i name) (hv : a.named[name]? = some v)
      (hnone : ∀ name, sig.First i name → name ∉ a.named) : False :=
    hnone name hfirst (Std.ExtTreeMap.mem_iff_isSome_getElem?.mpr (by rw [hv]; rfl))
  cases h with
  | named hfirst hv =>
    cases h' with
    | named hfirst' hw =>
      obtain rfl := (hfirst.unique hfirst').mp rfl
      exact Option.some.inj (hv.symm.trans hw)
    | positional hnone | absent hnone => exact (hnamed hfirst hv hnone).elim
  | positional hnone hv =>
    cases h' with
    | named hfirst' hw => exact (hnamed hfirst' hw hnone).elim
    | positional _ hw => exact Option.some.inj (hv.symm.trans hw)
    | absent _ hw => cases hv.symm.trans hw
  | absent hnone hv =>
    cases h' with
    | named hfirst' hw => exact (hnamed hfirst' hw hnone).elim
    | positional _ hw => cases hv.symm.trans hw
    | absent => rfl

@[simp] theorem length_layout :
    (a.layout sig).length = max sig.params.length a.positional.length := by
  rw [layout, List.length_map, List.length_range]

theorem layout_getElem? {i : Nat} (hi : i < (a.layout sig).length) :
    (a.layout sig)[i]? = some (a.slot sig i) := by
  rw [length_layout] at hi
  rw [layout, List.getElem?_map, List.getElem?_range hi, Option.map_some]

theorem laidOut_layout : a.LaidOut sig (a.layout sig) where
  length := length_layout
  entry i v hv := by
    rw [layout_getElem? (List.getElem?_eq_some_iff.mp hv).1] at hv
    exact Option.some.inj hv ▸ entry_slot i

/-- There is one way to lay arguments out. -/
theorem LaidOut.unique {bound bound' : List Value} (h : a.LaidOut sig bound)
    (h' : a.LaidOut sig bound') :
    bound = bound' := by
  refine List.ext_getElem (h.length.trans h'.length.symm) fun i hi hi' => ?_
  exact (h.entry i _ (List.getElem?_eq_getElem hi)).unique
    (h'.entry i _ (List.getElem?_eq_getElem hi'))

/-! ### The kinds -/

theorem zip_refuses {bound : List Value} {i : Nat} {kinds : KindSet} {v : Value}
    (h : (sig.kinds.zip bound)[i]? = some (kinds, v)) : kinds.admits v = false ↔
      sig.Refuses bound i v := by
  obtain ⟨hkinds, hv⟩ := List.getElem?_zip_eq_some.mp h
  rw [← Bool.not_eq_true, KindSet.admits_iff]
  refine ⟨fun hne => ⟨kinds, hkinds, hv, hne⟩, ?_⟩
  rintro ⟨kinds', hkinds', _, hne⟩
  obtain rfl := Option.some.inj (hkinds.symm.trans hkinds')
  exact hne

theorem zip_of_refuses {bound : List Value} {i : Nat} {v : Value} (h : sig.Refuses bound i v) :
    ∃ kinds, (sig.kinds.zip bound)[i]? = some (kinds, v) := by
  obtain ⟨kinds, hkinds, hv, _⟩ := h
  exact ⟨kinds, List.getElem?_zip_eq_some.mpr ⟨hkinds, hv⟩⟩

theorem refused?_eq_some {bound : List Value} {i : Nat} {v : Value}
    (h : refused? sig.kinds bound = some (i, v)) :
    sig.Refuses bound i v ∧ ∀ j < i, ∀ w, ¬ sig.Refuses bound j w := by
  obtain ⟨⟨⟨kinds, v'⟩, i'⟩, hfind, heq⟩ := Option.map_eq_some_iff.mp h
  cases heq
  obtain ⟨hrefused, i', hi', hat, hbefore⟩ := List.find?_eq_some_iff_getElem.mp hfind
  have hat' := List.getElem?_eq_getElem hi'
  rw [hat, List.getElem?_zipIdx] at hat'
  obtain ⟨q, hq, heq⟩ := Option.map_eq_some_iff.mp hat'
  simp only [Prod.mk.injEq, Nat.zero_add] at heq
  obtain ⟨rfl, rfl⟩ := heq
  refine ⟨(zip_refuses hq).mp (by simpa using hrefused), fun j hj w hw => ?_⟩
  obtain ⟨kinds', hzip⟩ := zip_of_refuses hw
  have hadmitted := hbefore j hj
  have hj' : (sig.kinds.zip bound).zipIdx[j]? = some ((kinds', w), j) := by
    rw [List.getElem?_zipIdx, hzip, Option.map_some, Nat.zero_add]
  rw [(List.getElem?_eq_some_iff.mp hj').2] at hadmitted
  simp [(zip_refuses hzip).mpr hw] at hadmitted

theorem refused?_eq_none {bound : List Value} (h : refused? sig.kinds bound = none) (i : Nat)
    (v : Value) :
    ¬ sig.Refuses bound i v := by
  intro hrefused
  obtain ⟨kinds, hzip⟩ := zip_of_refuses hrefused
  rw [refused?, Option.map_eq_none_iff, List.find?_eq_none] at h
  have hmem : ((kinds, v), i) ∈ (sig.kinds.zip bound).zipIdx := by
    refine List.mem_of_getElem? (i := i) ?_
    rw [List.getElem?_zipIdx, hzip, Option.map_some, Nat.zero_add]
  simpa [(zip_refuses hzip).mpr hrefused] using h _ hmem

/-- What the check of the kinds makes of a vector. -/
def checked (sig : Signature) (bound : List Value) : Except Fault (List Value) :=
  match refused? sig.kinds bound with
  | some (i, v) => .error (.typeMismatch (.argument sig.params[i]? sig.name v.kind))
  | none => .ok bound

theorem checked_bindsTo (hknown : a.Known sig) (bound : List Value) :
    a.BindsTo sig bound (checked sig bound) := by
  simp only [checked]
  split
  · rename_i i v hrefused
    obtain ⟨hi, hbefore⟩ := refused?_eq_some hrefused
    exact {
      succeeds := ⟨by simp, fun hand => absurd hi (hand.2 i v)⟩
      gives := by simp
      fails := fun e he => Or.inr ⟨hknown, i, v, hi, hbefore, (Except.error.inj he).symm⟩ }
  · rename_i hnone
    exact {
      succeeds := ⟨fun _ => ⟨hknown, refused?_eq_none hnone⟩, fun _ => ⟨bound, rfl⟩⟩
      gives := fun values hvalues => (Except.ok.inj hvalues).symm
      fails := by simp }

theorem unknown_bindsTo {name : String} (hname : name ∈ a.named) (hunknown : name ∉ sig.params)
    (bound : List Value) :
    a.BindsTo sig bound (.error (.unknownArgument sig.name name)) where
  succeeds := ⟨by simp, fun hand => absurd (hand.1 name hname) hunknown⟩
  gives := by simp
  fails e he := Or.inl ⟨name, hname, hunknown, (Except.error.inj he).symm⟩

theorem bind_bindsTo (a : Arguments) (sig : Signature) : a.BindsTo sig (a.layout sig)
    (a.bind sig) := by
  simp only [bind]
  split
  · rename_i name hstray
    have hname := List.mem_of_find?_eq_some hstray
    have hunknown := List.find?_some hstray
    exact unknown_bindsTo (Std.ExtTreeMap.mem_keys.mp hname) (by simpa using hunknown) _
  · rename_i hnone
    refine checked_bindsTo (fun name hname => ?_) (a.layout sig)
    have hknown := List.find?_eq_none.mp hnone name (Std.ExtTreeMap.mem_keys.mpr hname)
    simpa using hknown

/-- There is a value for every parameter, and no value is lost. -/
theorem length_of_bind {bound : List Value} (h : a.bind sig = .ok bound) :
    bound.length = max sig.params.length a.positional.length := by
  obtain rfl := (a.bind_bindsTo sig).gives bound h
  exact length_layout

/-! ### One named value after the other -/

/-- Puts named values in their places, in the order in which they are given. -/
def place (sig : Signature) : List (String × Value) → List Value → Except Fault (List Value)
  | [], bound => .ok bound
  | (name, v) :: rest, bound =>
    match sig.params.findIdx? (· == name) with
    | none => .error (.unknownArgument sig.name name)
    | some i => place sig rest (bound.set i v)

/-- Binding by going through the named values in a given order: the positional values come first,
then each named value overwrites what is at its parameter. -/
def bindBy (a : Arguments) (sig : Signature) (order : List (String × Value)) :
    Except Fault (List Value) := do
  let bound ← place sig order
      (a.positional ++ List.replicate (sig.params.length - a.positional.length) .null)
  checked sig bound

theorem place_error {order : List (String × Value)} {bound : List Value} {e : Fault}
    (h : place sig order bound = .error e) : ∃ p ∈ order, p.1 ∉ sig.params ∧
      e = .unknownArgument sig.name p.1 := by
  induction order generalizing bound with
  | nil => cases h
  | cons p rest ih =>
    simp only [place] at h
    split at h
    · rename_i hnone
      cases h
      exact ⟨p, List.mem_cons_self, Signature.findIdx?_eq_none.mp hnone, rfl⟩
    · obtain ⟨q, hq, hunknown⟩ := ih h
      exact ⟨q, List.mem_cons_of_mem _ hq, hunknown⟩

/-- What is at `i` is the value that was put there, or what has been there before. -/
theorem place_ok {order : List (String × Value)} {bound values : List Value}
    (h : place sig order bound = .ok values) (hdistinct : order.Pairwise fun p q => p.1 ≠ q.1) :
    (∀ p ∈ order, p.1 ∈ sig.params) ∧ values.length = bound.length ∧
      ∀ i, (∀ p ∈ order, sig.First i p.1 → i < bound.length → values[i]? = some p.2) ∧
        ((∀ p ∈ order, ¬ sig.First i p.1) → values[i]? = bound[i]?) := by
  induction order generalizing bound with
  | nil =>
    cases h
    exact ⟨by simp, rfl, fun i => ⟨by simp, fun _ => rfl⟩⟩
  | cons p rest ih =>
    simp only [place] at h
    split at h
    · cases h
    · rename_i k hk
      have hk := Signature.findIdx?_eq_some.mp hk
      obtain ⟨hne, hdistinct⟩ := List.pairwise_cons.mp hdistinct
      obtain ⟨hknown, hlength, hat⟩ := ih h hdistinct
      rw [List.length_set] at hlength
      refine ⟨List.forall_mem_cons.mpr ⟨hk.mem, hknown⟩, hlength, fun i => ⟨?_, fun hnone => ?_⟩⟩
      · rintro q hq hfirst hi
        obtain rfl | hq := List.mem_cons.mp hq
        -- The names differ, so that nothing that comes later goes to the same place.
        · obtain rfl := (hk.unique hfirst).mpr rfl
          rw [(hat k).2 fun q hq hfirst' => hne q hq ((hfirst.unique hfirst').mp rfl),
            List.getElem?_set_self hi]
        · exact (hat i).1 q hq hfirst (by rwa [List.length_set])
      · have hne : k ≠ i := fun heq => hnone p List.mem_cons_self (heq ▸ hk)
        rw [(hat i).2 fun q hq => hnone q (List.mem_cons_of_mem _ hq), List.getElem?_set_ne hne]

variable {order : List (String × Value)}

theorem mem_order (horder : order.Perm a.named.toList) (name : String) (v : Value) :
    (name, v) ∈ order ↔ a.named[name]? = some v := by
  rw [horder.mem_iff, Std.ExtTreeMap.mem_toList_iff_getElem?_eq_some]

theorem laidOut_of_place (horder : order.Perm a.named.toList) {values : List Value}
    (h :
      place sig order (a.positional ++ List.replicate (sig.params.length - a.positional.length)
        .null) = .ok values) :
    a.Known sig ∧ a.LaidOut sig values := by
  have hdistinct : order.Pairwise fun p q => p.1 ≠ q.1 := by
    refine (horder.pairwise_iff Ne.symm).mpr ?_
    refine Std.ExtTreeMap.distinct_keys_toList.imp fun hne heq => hne ?_
    rw [heq]
    exact Std.ReflCmp.compare_self
  obtain ⟨hknown, hlength, hat⟩ := place_ok h hdistinct
  have hvalue {name : String} (hname : name ∈ a.named) : ∃ v, (name, v) ∈ order ∧
      a.named[name]? = some v := by
    obtain ⟨v, hv⟩ := Option.isSome_iff_exists.mp (Std.ExtTreeMap.mem_iff_isSome_getElem?.mp hname)
    exact ⟨v, (mem_order horder name v).mpr hv, hv⟩
  rw [List.length_append, List.length_replicate] at hlength hat
  refine ⟨fun name hname => ?_, by omega, fun i w hw => ?_⟩
  · obtain ⟨v, hv, _⟩ := hvalue hname
    exact hknown _ hv
  · have hi := (List.getElem?_eq_some_iff.mp hw).1
    by_cases hnamed : ∃ name ∈ a.named, sig.First i name
    · obtain ⟨name, hname, hfirst⟩ := hnamed
      obtain ⟨v, hv, hv'⟩ := hvalue hname
      rw [(hat i).1 _ hv hfirst (hlength ▸ hi)] at hw
      exact .named hfirst (Option.some.inj hw ▸ hv')
    · have hnone (name : String) (hfirst : sig.First i name) : name ∉ a.named := fun hname =>
        hnamed ⟨name, hname, hfirst⟩
      have hsame := (hat i).2 fun p hp hfirst => hnone p.1 hfirst <| by
        rw [Std.ExtTreeMap.mem_iff_isSome_getElem?, (mem_order horder p.1 p.2).mp hp]
        rfl
      rw [hsame, List.getElem?_append] at hw
      split at hw
      · exact .positional hnone hw
      · rename_i hout
        obtain rfl := List.eq_of_mem_replicate (List.mem_of_getElem? hw)
        exact .absent hnone (List.getElem?_eq_none (Nat.le_of_not_lt hout))

/-- In whichever order the named values are gone through. -/
theorem bindBy_bindsTo (horder : order.Perm a.named.toList) : a.BindsTo sig (a.layout sig)
    (a.bindBy sig order) := by
  simp only [bindBy, Except.bind, Bind.bind]
  split
  · rename_i e he
    obtain ⟨p, hp, hunknown, rfl⟩ := place_error he
    refine unknown_bindsTo ?_ hunknown _
    rw [Std.ExtTreeMap.mem_iff_isSome_getElem?, (mem_order horder p.1 p.2).mp hp]
    rfl
  · rename_i values hvalues
    obtain ⟨hknown, hlaid⟩ := laidOut_of_place horder hvalues
    rw [hlaid.unique laidOut_layout]
    exact checked_bindsTo hknown _

end Arguments

end ProcEngine
