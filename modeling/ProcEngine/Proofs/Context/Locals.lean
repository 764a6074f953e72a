import ProcEngine.Proofs.Context.Binding
/-!
# The slots that a script begins with

A script has a slot for every bound value, and its own slots come behind them. Its code knows a slot
by its number alone. So the numbers from the parameters on are those of the script's own slots as
long as no more values are passed than there are parameters; a value beyond that lies where the code
expects a slot of its own. A script may ask for more slots than can be counted or addressed, and
does not come to its first instruction then.
-/

namespace ProcEngine

variable {m : Moment} {top : Activation} {callers : List Activation}

theorem Arguments.getElem?_of_bind {a : Arguments} {sig : Signature} {bound : List Value}
    (h : a.bind sig = .ok bound)
    {i : Nat} (hi : sig.params.length ≤ i) : bound[i]? = a.positional[i]? := by
  obtain rfl := (a.bind_bindsTo sig).gives bound h
  by_cases hin : i < a.positional.length
  · have hlt : i < (a.layout sig).length := by
      rw [length_layout]
      omega
    have hnone : sig.params[i]? = none := List.getElem?_eq_none hi
    rw [layout_getElem? hlt, slot, hnone, get, List.getElem?_eq_getElem hin, Option.getD_some]
  · have hout : (a.layout sig).length ≤ i := by
      rw [length_layout]
      omega
    rw [List.getElem?_eq_none hout, List.getElem?_eq_none (Nat.le_of_not_lt hin)]

/-- Where there is room for the slots of a script, its parameters hold what they are bound to as it
comes to its first instruction, and each slot of its own holds the value that was passed in its
place, null if none was. Where there is none, it breaks off. -/
theorem Moment.locals_begin {code : Array Instr} {extra : UInt64} {bound : List Value}
    (hstack : m.context.stack = top :: callers)
    (hframe : top.frame = (Body.script code extra).frame) (hbind : top.bind = .ok bound) :
    (bound.length + extra.toNat ≤ ScriptFrame.maxRoom →
      ∃ f, m.outcome =
        .ok (.running (m.context.on (top.withFrame (.script f) :: callers))) m.runtime ∧
        f.code = code ∧ f.position = 0 ∧ f.operands = [] ∧
        (∀ i < top.signature.params.length, f.slots[i]? = bound[i]?) ∧
        (∀ j < extra.toNat, f.slots[top.signature.params.length + j]? =
          some (top.invocation.arguments.get (top.signature.params.length + j))) ∧
        (top.invocation.arguments.positional.length ≤ top.signature.params.length →
          ∀ j < extra.toNat, f.slots[top.signature.params.length + j]? = some .null)) ∧
      (ScriptFrame.maxRoom < bound.length + extra.toNat →
        ∃ b : Breach, b.isOverflow ∧ m.outcome = .breach b m.runtime) := by
  have hfresh : top.IsFresh := ⟨_, hframe⟩
  have hthrough : ¬ top.PassesThrough := by
    rintro ⟨f, hf, _⟩
    cases hf.symm.trans hframe
  -- Binding is the first step of an activation, and there the slots are laid out.
  let f₀ : ScriptFrame := { code, extra }
  have hreport : m.report =
      if f₀.HasRoom bound then .ok (top.withFrame (.script (f₀.start bound)), .proceed) m.runtime
      else .breach (f₀.shortage bound) m.runtime := by
    rw [m.report_eq hstack, hfresh.fetch, Activation.step_first hfresh.not_started hthrough, hbind]
    simp only [Activation.begin, hframe]
    exact Act.need_bind _ _ _ _
  have hstep := m.report_eq hstack
  refine ⟨fun hroom => ?_, fun hroom => ⟨_, f₀.shortage_isOverflow bound, ?_⟩⟩
  · rw [if_pos (show f₀.HasRoom bound from hroom)] at hreport
    have houtcome : m.outcome =
        .ok (.running (m.context.on (top.withFrame (.script (f₀.start bound)) :: callers)))
          m.runtime := by
      simp only [Moment.outcome, Context.step, hstack]
      rw [← hstep, hreport]
      rfl
    have hlength := Arguments.length_of_bind hbind
    have hslots (i : Nat) :
        (f₀.start bound).slots[i]? = (bound ++ List.replicate extra.toNat Value.null)[i]? :=
      List.getElem?_toArray
    -- Behind the parameters lie the surplus values and only then the nulls.
    have hown (j : Nat) (hj : j < extra.toNat) :
        (f₀.start bound).slots[top.signature.params.length + j]? =
        some (top.invocation.arguments.get (top.signature.params.length + j)) := by
      rw [hslots, List.getElem?_append, Arguments.get,
        ← Arguments.getElem?_of_bind hbind (Nat.le_add_right _ _)]
      split
      · rename_i hin
        rw [List.getElem?_eq_getElem hin, Option.getD_some]
      · rename_i hout
        rw [List.getElem?_replicate, if_pos (by omega),
          List.getElem?_eq_none (Nat.le_of_not_lt hout),
          Option.getD_none]
    refine ⟨f₀.start bound, houtcome, rfl, rfl, rfl, fun i hi => ?_, hown, fun hfew j hj => ?_⟩
    · rw [hslots, List.getElem?_append_left (by omega)]
    · rw [hown j hj, Arguments.get, List.getElem?_eq_none (by omega), Option.getD_none]
  · have hnone : ¬ f₀.HasRoom bound := Nat.not_le.mpr hroom
    rw [if_neg hnone] at hreport
    simp only [Moment.outcome, Context.step, hstack]
    rw [← hstep, hreport]

/-- A script without parameters that returns what is in the one slot of its own. -/
def idle : Proc := ⟨{ name := "/proc/idle" }, .script #[.getLocal 0, .ret] 1, none, none⟩

def idling (positional : List Value) : Context × Runtime :=
  ({ procs := #[idle] } : Runtime).opened ⟨1, "/proc/idle"⟩ { arguments := { positional } }

theorem idle_begins_with_null : ∃ top f,
    (idling []).1.stack = [top] ∧
      (Moment.mk (idling []).1 5 (idling []).2).outcome =
        .ok (.running ((idling []).1.on [top.withFrame (.script f)])) (idling []).2 ∧
      f.slots[0]? = some .null := by
  let m : Moment := ⟨(idling []).1, 5, (idling []).2⟩
  obtain ⟨top, hstack, hframe, hbind⟩ : ∃ top : Activation,
      m.context.stack = [top] ∧ top.frame = (Body.script #[.getLocal 0, .ret] 1).frame ∧
        top.bind = .ok [] :=
    ⟨_, rfl, rfl, rfl⟩
  obtain ⟨f, houtcome, _, _, _, _, _, hnull⟩ :=
    (Moment.locals_begin hstack hframe hbind).1 (by decide)
  cases hstack
  exact ⟨_, f, rfl, houtcome, hnull (by decide) 0 (by decide)⟩

/-- The slot is not null when there is a value more than there are parameters, and the script
returns that value. -/
theorem surplus_value_fills_slot :
    (¬ ∀ (m : Moment) (top : Activation) (callers : List Activation) (code : Array Instr)
    (extra : UInt64)
        (bound : List Value), m.context.stack = top :: callers →
        top.frame = (Body.script code extra).frame →
        top.bind = .ok bound →
        ∃ f, m.outcome =
          .ok (.running (m.context.on (top.withFrame (.script f) :: callers))) m.runtime ∧
          (∀ i < top.signature.params.length, f.slots[i]? = bound[i]?) ∧
          ∀ j < extra.toNat, f.slots[top.signature.params.length + j]? = some .null) ∧
      ∃ rt, Runtime.call 5 ⟨1, "/proc/idle"⟩ { arguments := { positional := [.int 7] } }
        { procs := #[idle] } =
        .ok (.int 7) rt := by
  refine ⟨fun hnull => ?_, _, rfl⟩
  obtain ⟨f, houtcome, _, hown⟩ :=
    hnull ⟨(idling [.int 7]).1, 5, (idling [.int 7]).2⟩ _ [] #[.getLocal 0,
      .ret] 1 [.int 7] rfl rfl rfl
  have hslots : f.locals = some #[.int 7, .null] := by
    have hrunning : (Moment.mk (idling [.int 7]).1 5 (idling [.int 7]).2).outcome =
        .ok (.running _) _ := rfl
    rw [houtcome] at hrunning
    cases hrunning
    rfl
  have hfilled := hown 0 (by decide)
  rw [ScriptFrame.slots, hslots] at hfilled
  cases hfilled

end ProcEngine
