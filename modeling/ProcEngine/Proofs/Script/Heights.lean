import ProcEngine.Proofs.Object.Blameless
import ProcEngine.Script.Frame
/-!
# Operand heights

How many operands there are at each position of a script can be told without running it, if all ways
to a position agree. `Heights` is such an account: from no operands at the start it follows what
each instruction takes off and what it leaves, and no instruction finds too few of them. A frame on
its `Level` has what the account says of its position, but for the operand that it is owed while a
call of it is answered. An instruction that finds a frame on its level never fails for want of
operands or of a slot, and leaves it on its level.
-/

namespace ProcEngine

/-! ### What values refuse -/

namespace Value

theorem asObject_error {v : Value} {e : Fault} (h : v.asObject = .error e) :
    e.isMalformed = false := by
  cases v <;> cases h <;> rfl

theorem asInt_error {v : Value} {e : Fault} (h : v.asInt = .error e) : e.isMalformed = false := by
  cases v <;> cases h <;> rfl

theorem viaFloat_error {op : Operator} {f : Float → Float → Float} {a b : Value} {e : Fault}
    (h : viaFloat op f a b = .error e) : e.isMalformed = false := by
  simp only [viaFloat] at h
  split at h
  · cases h
  · split at h <;> cases h
    rfl

theorem add_error {a b : Value} {e : Fault} (h : a.add b = .error e) : e.isMalformed = false := by
  simp only [add] at h
  split at h <;> first | exact viaFloat_error h | cases h

theorem sub_error {a b : Value} {e : Fault} (h : a.sub b = .error e) : e.isMalformed = false := by
  simp only [sub] at h
  split at h <;> first | exact viaFloat_error h | cases h

theorem mul_error {a b : Value} {e : Fault} (h : a.mul b = .error e) : e.isMalformed = false := by
  simp only [mul] at h
  split at h <;> first | exact viaFloat_error h | cases h

theorem lessThan_error {a b : Value} {e : Fault} (h : a.lessThan b = .error e) :
    e.isMalformed = false := by
  simp only [lessThan] at h
  split at h
  · cases h
  · split at h <;> cases h
    rfl

end Value

theorem Arguments.bind_error {a : Arguments} {sig : Signature} {e : Fault}
    (h : a.bind sig = .error e) :
    e.isMalformed = false := by
  simp only [bind] at h
  split at h
  · cases h
    rfl
  · split at h <;> cases h
    rfl

/-! ### What instructions do to the operands -/

namespace Instr

/-- How many operands an instruction has to find. All of them are taken off. -/
def takes : Instr → Nat
  | .push _ | .getLocal _ | .src | .usr | .jump _ | .ret => 0
  | .setLocal _ | .getVar _ | .not | .jumpIfFalse _ | .pop | .setResult | .del | .sleep | .crash =>
    1
  | .setVar _ | .add | .sub | .mul | .eq | .lt => 2
  | .call _ argc | .callSuper argc | .new _ argc => argc.toNat
  | .callMethod _ argc => argc.toNat + 1

/-- How many operands an instruction leaves in their place, once what it calls has returned. -/
def gives : Instr → Nat
  | .push _ | .getLocal _ | .src | .usr | .getVar _ | .add | .sub | .mul | .eq | .lt | .not
  | .call .. | .callMethod .. | .callSuper _ | .new .. => 1
  | _ => 0

/-- The local slot that an instruction uses. -/
def slot? : Instr → Option Nat
  | .getLocal slot | .setLocal slot => some slot.toNat
  | _ => none

/-- Where a script goes on after the instruction at `p`. -/
def next (p : Nat) : Instr → List Nat
  | .jump target => [target.toNat]
  | .jumpIfFalse target => [p + 1, target.toNat]
  | .crash | .ret => []
  | _ => [p + 1]

end Instr

/-- The instruction at `p` finds `n` operands and `limit` local slots, and wherever it leads the
account goes on. -/
structure Instr.Fits (i : Instr) (p n size limit : Nat) (height : Nat → Option Nat) : Prop where
  takes : i.takes ≤ n
  slot : ∀ slot ∈ i.slot?, slot < limit
  next : ∀ q ∈ i.next p, q < size → height q = some (n - i.takes + i.gives)

/-- An account of the operands at the positions of a script that can be reached. -/
structure Heights (code : Array Instr) (limit : Nat) (height : Nat → Option Nat) : Prop where
  start : height 0 = some 0
  step : ∀ p, (hp : p < code.size) → ∀ n ∈ height p, code[p].Fits p n code.size limit height

instance (i : Instr) (p n size limit : Nat) (height : Nat → Option Nat) :
    Decidable (i.Fits p n size limit height) :=
  decidable_of_iff (i.takes ≤ n ∧ (∀ slot ∈ i.slot?, slot < limit) ∧
      ∀ q ∈ i.next p, q < size → height q = some (n - i.takes + i.gives))
    ⟨fun h => ⟨h.1, h.2.1, h.2.2⟩, fun h => ⟨h.takes, h.slot, h.next⟩⟩

instance (code : Array Instr) (limit : Nat) (height : Nat → Option Nat) :
    Decidable (Heights code limit height) :=
  decidable_of_iff (height 0 = some 0 ∧
      ∀ p, (hp : p < code.size) → ∀ n ∈ height p, code[p].Fits p n code.size limit height)
    ⟨fun h => ⟨h.1, h.2⟩, fun h => ⟨h.start, h.step⟩⟩

/-- How many operands the instruction owes when it asks for something. -/
def Demand.owed : Demand → Nat
  | .read .. | .call .. | .callMethod .. | .callSuper _ | .construct .. => 1
  | _ => 0

namespace ScriptFrame

variable {f f' : ScriptFrame} {src usr : Option ObjectRef} {i : Instr} {d : Demand}
  {e : Fault} {p : Nat}

theorem pop_keeps {q : Value × ScriptFrame} (h : f.pop = .ok q) : q.2.code = f.code ∧
    q.2.extra = f.extra := by
  simp only [pop] at h
  split at h <;> cases h
  exact ⟨rfl, rfl⟩

theorem popArguments_keeps {argc : UInt64} {q : List Value × ScriptFrame}
    (h : f.popArguments argc = .ok q) :
    q.2.code = f.code ∧ q.2.extra = f.extra := by
  simp only [popArguments] at h
  split at h <;> cases h
  exact ⟨rfl, rfl⟩

/-- Whatever is executed, the script stays the same. -/
theorem exec_keeps (h : f.exec src usr i = .ok (d, f')) : f'.code = f.code ∧
    f'.extra = f.extra := by
  cases i <;> simp only [exec, binary, bind, Except.bind, pure, Except.pure] at h <;>
    (repeat' split at h) <;>
    cases h <;> grind [→ pop_keeps, → popArguments_keeps, push]

/-- What an instruction at `p` does to its frame, short of ending the proc. -/
structure Executes (f : ScriptFrame) (i : Instr) (p : Nat) (d : Demand)
    (f' : ScriptFrame) : Prop where
  code : f'.code = f.code
  slots : f'.slots.size = f.slots.size
  operands : f'.operands.length + d.owed = f.operands.length - i.takes + i.gives
  position : f'.position ∈ i.next p

/-- What may become of an instruction: it ends the proc or does to its frame what its kind says, or
else it fails for another reason than that the code is malformed. -/
def Sound (f : ScriptFrame) (i : Instr) (p : Nat) : Except Fault (Demand × ScriptFrame) → Prop
  | .ok (d, f') => (∃ v, d = .finish v) ∨ f.Executes i p d f'
  | .error e => e.isMalformed = false

theorem Sound.bind {α : Type} {x : Except Fault α} {g : α → Except Fault (Demand × ScriptFrame)}
    (herror : ∀ e, x = .error e → e.isMalformed = false)
    (hok : ∀ a, x = .ok a → f.Sound i p (g a)) :
    f.Sound i p (x >>= g) := by
  cases x with
  | error e => exact herror e rfl
  | ok a => exact hok a rfl

/-- Most instructions go on to the next one and change nothing but the operands. -/
theorem Executes.straight (hp : f.position = p + 1) (hnext : i.next p = [p + 1])
    {operands : List Value}
    (hlength : operands.length + d.owed = f.operands.length - i.takes + i.gives) :
    f.Executes i p d { f with operands } where
  code := rfl
  slots := rfl
  operands := hlength
  position := by
    rw [hnext, List.mem_singleton]
    exact hp

theorem Sound.pop {f₁ : ScriptFrame} {g : Value × ScriptFrame → Except Fault (Demand × ScriptFrame)}
    (hsome : 1 ≤ f₁.operands.length)
    (h : ∀ v rest, f₁.operands = v :: rest → f.Sound i p (g (v, { f₁ with operands := rest }))) :
    f.Sound i p (f₁.pop >>= g) := by
  obtain ⟨v, rest, hoperands⟩ := List.exists_cons_of_length_pos hsome
  rw [ScriptFrame.pop, hoperands]
  exact h v rest hoperands

theorem Sound.popArguments {g : List Value × ScriptFrame → Except Fault (Demand × ScriptFrame)}
    {argc : UInt64} (hsome : argc.toNat ≤ f.operands.length)
    (h : ∀ args rest, rest.length = f.operands.length - argc.toNat →
      f.Sound i p (g (args, { f with operands := rest }))) :
    f.Sound i p (f.popArguments argc >>= g) := by
  rw [ScriptFrame.popArguments, if_neg (by omega)]
  exact h _ _ List.length_drop

theorem binary_sound {op : Value → Value → Except Fault Value} (hp : f.position = p + 1)
    (hnext : i.next p = [p + 1])
    (htakes : i.takes = 2) (hgives : i.gives = 1) (hsome : 2 ≤ f.operands.length)
    (hop : ∀ a b e, op a b = .error e → e.isMalformed = false) : f.Sound i p (f.binary op) := by
  refine .pop (by omega) fun rhs rest hrhs => ?_
  rw [hrhs, List.length_cons] at hsome
  refine .pop (by show 1 ≤ rest.length; omega) fun lhs rest' hlhs => ?_
  refine .bind (hop lhs rhs) fun v _ => Or.inr (.straight hp hnext ?_)
  have hrest : rest = lhs :: rest' := hlhs
  rw [htakes, hgives, hrhs, hrest]
  rfl

theorem exec_sound (hp : f.position = p + 1) (htakes : i.takes ≤ f.operands.length)
    (hslot : ∀ slot ∈ i.slot?, slot < f.slots.size) : f.Sound i p (f.exec src usr i) := by
  cases i with
  | push v | src | usr => exact Or.inr (.straight hp rfl rfl)
  | getLocal slot =>
    have hslot : slot.toNat < f.slots.size := hslot _ rfl
    rw [exec, Array.getElem?_eq_getElem hslot]
    exact Or.inr (.straight hp rfl rfl)
  | setLocal slot =>
    have hslot : slot.toNat < f.slots.size := hslot _ rfl
    refine .pop htakes fun v rest hrest => ?_
    have hsize : ({ f with operands := rest } : ScriptFrame).slots = f.slots := rfl
    simp only [hsize, if_pos hslot]
    refine Or.inr ⟨rfl, ?_, ?_, ?_⟩
    · simp [slots]
    · rw [hrest]
      rfl
    · exact List.mem_singleton.mpr hp
  | getVar name =>
    refine .pop htakes fun v rest hrest => .bind (fun _ => Value.asObject_error) fun o _ => ?_
    refine Or.inr (.straight hp rfl ?_)
    rw [hrest]
    rfl
  | setVar name =>
    have htakes : 2 ≤ f.operands.length := htakes
    refine .pop (by omega) fun v rest hv => ?_
    rw [hv, List.length_cons] at htakes
    refine .pop (by show 1 ≤ rest.length; omega) fun target rest' htarget => ?_
    refine .bind (fun _ => Value.asObject_error) fun o _ => Or.inr (.straight hp rfl ?_)
    have hrest : rest = target :: rest' := htarget
    rw [hv, hrest]
    rfl
  | add => exact binary_sound hp rfl rfl rfl htakes fun _ _ _ => Value.add_error
  | sub => exact binary_sound hp rfl rfl rfl htakes fun _ _ _ => Value.sub_error
  | mul => exact binary_sound hp rfl rfl rfl htakes fun _ _ _ => Value.mul_error
  | eq =>
    rw [exec]
    refine binary_sound hp rfl rfl rfl htakes fun a b e h => ?_
    cases h
  | lt =>
    rw [exec]
    refine binary_sound hp rfl rfl rfl htakes fun a b e h => ?_
    cases hless : a.lessThan b with
    | error e' =>
      rw [hless] at h
      cases h
      exact Value.lessThan_error hless
    | ok _ =>
      rw [hless] at h
      cases h
  | not =>
    refine .pop htakes fun v rest hrest => Or.inr (.straight hp rfl ?_)
    rw [hrest]
    rfl
  | jump target => exact Or.inr ⟨rfl, rfl, rfl, List.mem_singleton.mpr rfl⟩
  | jumpIfFalse target =>
    refine .pop htakes fun v rest hrest => ?_
    have hlength : rest.length + 0 = f.operands.length - 1 + 0 := by simp [hrest]
    refine Or.inr ?_
    split
    · exact ⟨rfl, rfl, hlength, List.mem_cons.mpr (Or.inl hp)⟩
    · exact ⟨rfl, rfl, hlength, List.mem_cons_of_mem _ List.mem_cons_self⟩
  | pop | setResult =>
    refine .pop htakes fun v rest hrest => Or.inr (.straight hp rfl ?_)
    rw [hrest]
    rfl
  | call name argc | callSuper argc | new path argc =>
    refine .popArguments htakes fun args rest hrest => Or.inr (.straight hp rfl ?_)
    rw [hrest]
    rfl
  | callMethod name argc =>
    have htakes : argc.toNat + 1 ≤ f.operands.length := htakes
    refine .popArguments (by omega) fun args rest hlength => ?_
    refine .pop (by show 1 ≤ rest.length; omega) fun target rest' htarget => ?_
    refine .bind (fun _ => Value.asObject_error) fun o _ => Or.inr (.straight hp rfl ?_)
    have hrest : rest = target :: rest' := htarget
    rw [hrest, List.length_cons] at hlength
    show rest'.length + 1 = f.operands.length - (argc.toNat + 1) + 1
    omega
  | del =>
    refine .pop htakes fun v rest hrest => .bind (fun _ => Value.asObject_error) fun o _ => ?_
    refine Or.inr (.straight hp rfl ?_)
    rw [hrest]
    rfl
  | sleep =>
    refine .pop htakes fun v rest hrest => .bind (fun _ => Value.asInt_error) fun n _ => ?_
    refine Or.inr (.straight hp rfl ?_)
    rw [hrest]
    rfl
  | crash => exact .pop htakes fun v rest hrest => rfl
  | ret => exact Or.inl ⟨_, rfl⟩

/-- What the account says of a frame's position holds of it. `owed` counts the operands it has yet
to be given. -/
structure Level (height : Nat → Option Nat) (limit owed : Nat) (f : ScriptFrame) : Prop where
  height : f.position < f.code.size → ∃ n, height f.position = some n ∧ n ≤ f.operands.length + owed
  slots : f.locals.isSome → limit ≤ f.slots.size

variable {height : Nat → Option Nat} {limit : Nat}

/-- A script whose arguments are not bound yet is at its start. -/
theorem Level.start (hheights : Heights f.code limit height) (hstart : f.position = 0)
    (hlocals : f.locals = none) :
    f.Level height limit 0 where
  height _ := ⟨0, hstart ▸ hheights.start, Nat.zero_le _⟩
  slots h := by
    rw [hlocals] at h
    cases h

theorem Level.bound (hlevel : f.Level height limit 0) {values : List Value}
    (hlimit : limit ≤ f.room values) :
    (f.start values).Level height limit 0 where
  height := hlevel.height
  slots _ := by
    simp only [ScriptFrame.start, ScriptFrame.slots, Option.getD_some, List.size_toArray,
      List.length_append, List.length_replicate]
    exact hlimit

/-- It does not matter whether an operand is there or owed. -/
theorem Level.regrouped {owed owed' : Nat} {operands : List Value}
    (hlevel : f.Level height limit owed) (h : operands.length + owed' = f.operands.length + owed) :
    ScriptFrame.Level height limit owed' { f with operands } where
  height hposition := by
    obtain ⟨n, hn, hle⟩ := hlevel.height hposition
    refine ⟨n, hn, ?_⟩
    rw [h]
    exact hle
  slots := hlevel.slots

theorem Level.receive {owed : Nat} (hlevel : f.Level height limit (owed + 1)) (v : Value) :
    (f.receive v).Level height limit owed := by
  refine hlevel.regrouped ?_
  rw [List.length_cons]
  omega

/-- An instruction that finds its frame on its level does not fail for malformed code, and leaves it
on its level. -/
theorem Level.exec (hlevel : f.Level height limit 0) (hheights : Heights f.code limit height)
    (hlocals : f.locals.isSome) (hcode : f.code[f.position]? = some i)
    (src usr : Option ObjectRef) :
    match { f with position := f.position + 1 }.exec src usr i with
    | .ok (d, f') => (∃ v, d = .finish v) ∨ f'.Level height limit d.owed
    | .error e => e.isMalformed = false := by
  obtain ⟨hposition, hi⟩ := Array.getElem?_eq_some_iff.mp hcode
  obtain ⟨n, hn, hle⟩ := hlevel.height hposition
  have hfits : i.Fits f.position n f.code.size limit height := by
    rw [← hi]
    exact hheights.step f.position hposition n hn
  have hslots := hlevel.slots hlocals
  have hsound : ScriptFrame.Sound { f with position := f.position + 1 } i f.position
      ({ f with position := f.position + 1 }.exec src usr i) :=
    exec_sound rfl (Nat.le_trans hfits.takes hle) fun slot hslot =>
      Nat.lt_of_lt_of_le (hfits.slot slot hslot) hslots
  cases hexec : { f with position := f.position + 1 }.exec src usr i with
  | error e =>
    rw [hexec] at hsound
    exact hsound
  | ok q =>
    obtain ⟨d, f'⟩ := q
    rw [hexec] at hsound
    refine hsound.imp_right fun h => ⟨?_, ?_⟩
    · intro hinside
      rw [h.code] at hinside
      refine ⟨_, hfits.next _ h.position hinside, ?_⟩
      rw [h.operands]
      have htakes := hfits.takes
      show n - i.takes + i.gives ≤ f.operands.length - i.takes + i.gives
      omega
    · intro _
      rw [h.slots]
      exact hslots

end ScriptFrame

end ProcEngine
