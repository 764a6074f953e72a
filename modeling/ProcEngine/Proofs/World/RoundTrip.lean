import ProcEngine.Proofs.Json.Finite
import ProcEngine.Proofs.World.Reading
/-!
# Code and constants come back from what is written for them

What is written for an instruction or a constant is read as the same again, unless it holds a float
that is not finite, for which JSON has no form.

A document may be spelled in many ways, but whatever is read from it can be written: all its numbers
are finite, an integer that is read as a float stays finite, and what is written nests no deeper
than any spelling of it. So reading, writing and reading again gives what reading has given.
-/

namespace ProcEngine

def Constant.isFinite : Constant → Bool
  | float x => x.isFinite
  | null | int _ | text _ => true

def Instr.isFinite : Instr → Bool
  | push c => c.isFinite
  | _ => true

namespace Format

open Json

/-! ### Constants -/

theorem int?_written (i : Int64) :
    (Json.number (if i < 0 then .neg i else .nat (UInt64.ofNat i.toInt.toNat))).int? = some i := by
  have hlow := i.le_toInt
  have hhigh := i.toInt_lt
  split
  · rfl
  · rename_i h
    have hpos : 0 ≤ i.toInt := by
      have : ¬ i.toInt < (0 : Int64).toInt := fun hlt => h (Int64.lt_iff_toInt_lt.2 hlt)
      simpa using this
    have hword : (UInt64.ofNat i.toInt.toNat).toNat = i.toInt.toNat := UInt64.toNat_ofNat_of_lt' (by
      change _ < 2 ^ 64
      omega)
    have hlt : UInt64.ofNat i.toInt.toNat < 0x8000000000000000 := by
      rw [UInt64.lt_iff_toNat_lt, hword]
      change _ < 2 ^ 63
      omega
    simp only [Json.int?, hlt, if_true, hword, Option.some_inj]
    rw [Int.toNat_of_nonneg hpos, Int64.ofInt_toInt]

variable (inCode : Bool)

theorem constant?_tagged (tag : String) (content : Json) :
    constant? inCode (.object [(some "t", .string tag), (some "v", content)]) =
      constantOf? tag (some content) := by
  simp [constant?, members?, field?, valuesOf, constantTag?, choice?]

/-- What is written for a constant is read as the constant, and as nothing if it is a float that is
not finite. -/
theorem constant?_ofConstant (c : Constant) : constant? inCode (ofConstant c) = some c ↔
    c.isFinite := by
  cases c with
  | null =>
    simp [constant?, ofConstant, members?, field?, valuesOf, constantTag?, choice?, constantOf?,
      Constant.isFinite]
  | int i =>
    rw [ofConstant, constant?_tagged]
    simp only [constantOf?, int?_written, Option.map_some, Constant.isFinite]
  | float x =>
    rw [ofConstant, constant?_tagged, ofFloat]
    cases h : x.isFinite <;> simp [constantOf?, float?, Constant.isFinite, h]
  | text s =>
    rw [ofConstant, constant?_tagged]
    simp [constantOf?, text?, Constant.isFinite]

theorem constantOf?_isFinite {tag : String} {content : Option Json} {c : Constant}
    (h : constantOf? tag content = some c) (hcontent : ∀ j ∈ content, j.isFinite) : c.isFinite := by
  unfold constantOf? at h
  split at h
  case h_4 j =>
    obtain ⟨x, hx, rfl⟩ := Option.map_eq_some_iff.mp h
    exact float?_isFinite hx (hcontent j rfl)
  case h_3 | h_5 =>
    obtain ⟨_, _, rfl⟩ := Option.map_eq_some_iff.mp h
    rfl
  all_goals
    cases h
  all_goals rfl

theorem constant?_isFinite {j : Json} {c : Constant} (h : constant? inCode j = some c)
    (hj : j.isFinite) :
    c.isFinite := by
  unfold constant? at h
  split at h
  case h_1 tag content =>
    obtain ⟨_, _, h⟩ := Option.bind_eq_some_iff.mp h
    simp only [isFinite, itemsFinite_iff] at hj
    exact constantOf?_isFinite h (by simpa using hj content (by simp))
  case h_2 =>
    obtain ⟨members, hmembers, hrest⟩ := Option.bind_eq_some_iff.mp h
    obtain ⟨_, _, hrest⟩ := Option.bind_eq_some_iff.mp hrest
    obtain ⟨_, _, hrest⟩ := Option.bind_eq_some_iff.mp hrest
    obtain ⟨_, _, hrest⟩ := Option.bind_eq_some_iff.mp hrest
    obtain ⟨content, hcontent, hof⟩ := Option.bind_eq_some_iff.mp hrest
    obtain ⟨written, rfl, hwritten⟩ := mem_of_members? hmembers
    simp only [isFinite, membersFinite_iff] at hj
    apply constantOf?_isFinite hof
    intro j hcontains
    obtain rfl : content = some j := by simpa using hcontains
    exact hj _ (hwritten _ (mem_of_field? hcontent))

/-- Only an array or an object is read as a constant. -/
theorem pos_of_constant? {j : Json} {c : Constant} {depth : Nat} (h : constant? inCode j = some c)
    (hreadable : isReadable depth j) : 0 < depth := by
  cases j with
  | array items =>
    simp only [isReadable, Bool.and_eq_true, decide_eq_true_eq] at hreadable
    exact hreadable.1
  | object members =>
    simp only [isReadable, Bool.and_eq_true, decide_eq_true_eq] at hreadable
    exact hreadable.1
  | null | bool _ | number _ | string _ | unreadable => simp [constant?, members?] at h

/-! ### Instructions as they are written -/

section Writing

variable {inBody : Bool} {depth : Nat} {op : String} {operands : List (String × Json)}

theorem tagged_readable_iff : isReadable depth (tagged op operands) ↔
    0 < depth ∧ ∀ m ∈ operands, isReadable (depth - 1) m.2 := by
  simp only [tagged, isReadable, membersReadable, Option.isSome_some, Bool.true_and,
    Bool.and_eq_true, decide_eq_true_eq, membersReadable_iff, List.forall_mem_map, true_and]

theorem members?_tagged : (tagged op operands).members? =
    some (("op", .string op) :: operands) := by
  have hobject : tagged op operands =
      .object ((("op", .string op) :: operands).map fun m => (some m.1, m.2)) := rfl
  rw [hobject]
  exact members?_written

/-- An instruction that is written with its tag in front is read by the form that the tag names. -/
theorem instr?_tagged {form : InstrForm} (hform : instrForm? inBody (.string op) = some form)
    (hreadable : isReadable depth (tagged op operands)) (hkeys : ∀ m ∈ operands, m.1 ≠ "op") :
    instr? inBody depth (tagged op operands) =
      (operandsOfMembers? operands form.operands).bind form.make := by
  have hnone : operands.filter (fun m => m.1 == "op") = [] := by simpa using hkeys
  have hall : operands.filter (fun m => m.1 != "op") = operands := by simpa using hkeys
  have hfield : field? (("op", .string op) :: operands) "op" = some (some (.string op)) := by
    simp only [field?, valuesOf, List.filter_cons, beq_self_eq_true, if_true, hnone, List.map_cons,
      List.map_nil]
  have hrest : (("op", Json.string op) :: operands).filter (fun m => m.1 != "op") = operands := by
    simpa [List.filter_cons] using hall
  have hread : instr? inBody depth (tagged op operands) = (do
      let members ← (tagged op operands).members?
      let form ← instrForm? inBody (← (← field? members "op"))
      form.make (← operandsOfMembers? (members.filter fun m => m.1 != "op") form.operands)) := by
    simp only [instr?, hreadable, guard_true]
    rfl
  rw [hread, members?_tagged]
  simp only [Option.bind_eq_bind, Option.bind_some, hfield, hform, hrest]

theorem instr?_plain {i : Instr} (hform : instrForm? inBody (.string op) = some (.plain op i))
    (hreadable : isReadable depth (tagged op [])) :
    instr? inBody depth (tagged op []) = some i := by
  rw [instr?_tagged hform hreadable (by simp)]
  rfl

variable {key : String}

theorem instr?_ofText {f : String → Instr} {s : String}
    (hform : instrForm? inBody (.string op) = some (.ofText op key f))
    (hreadable : isReadable depth (tagged op [(key, .string s)])) (hkey : key ≠ "op") :
    instr? inBody depth (tagged op [(key, .string s)]) = some (f s) := by
  rw [instr?_tagged hform hreadable (by simpa using hkey)]
  simp [operandsOfMembers?, InstrForm.ofText, field?, valuesOf, OperandForm.read?, text?]

theorem instr?_ofWord {f : UInt64 → Instr} {n : UInt64}
    (hform : instrForm? inBody (.string op) = some (.ofWord op key f))
    (hreadable : isReadable depth (tagged op [(key, ofWord n)])) (hkey : key ≠ "op") :
    instr? inBody depth (tagged op [(key, ofWord n)]) = some (f n) := by
  rw [instr?_tagged hform hreadable (by simpa using hkey)]
  simp [operandsOfMembers?, InstrForm.ofWord, field?, valuesOf, OperandForm.read?, word?, ofWord]

theorem instr?_ofCall {f : String → UInt64 → Instr} {s : String} {n : UInt64}
    (hform : instrForm? inBody (.string op) = some (.ofCall op key f))
    (hreadable : isReadable depth (tagged op [(key, .string s), ("argc", ofWord n)]))
    (hkey : key ≠ "op") (hargc : key ≠ "argc") :
    instr? inBody depth (tagged op [(key, .string s), ("argc", ofWord n)]) = some (f s n) := by
  rw [instr?_tagged hform hreadable (by simpa using hkey)]
  simp [operandsOfMembers?, InstrForm.ofCall, field?, valuesOf, OperandForm.read?, text?, word?,
    ofWord, hargc, hargc.symm]

end Writing

/-- What is written for an instruction is read as the instruction, wherever there is room for it. -/
theorem instr?_ofInstr (inBody : Bool) {depth : Nat} {i : Instr} (hfinite : i.isFinite)
    (hreadable : isReadable depth (ofInstr i)) : instr? inBody depth (ofInstr i) = some i := by
  cases i with
  | push c =>
    obtain ⟨form, hform, hoperands, hmake⟩ :
      ∃ form, instrForm? inBody (.string "Push") = some form ∧
        form.operands = [("v", .constant)] ∧ ∀ c, form.make [.constant c] = some (.push c) :=
      ⟨_, rfl, rfl, fun _ => rfl⟩
    have hc : constant? true (ofConstant c) = some c := (constant?_ofConstant true c).2 hfinite
    rw [ofInstr, instr?_tagged hform hreadable (by simp), hoperands]
    simp [operandsOfMembers?, field?, valuesOf, OperandForm.read?, hc, hmake]
  | src | usr | add | sub | mul | eq | lt | not | pop | setResult | del | sleep | crash | ret =>
    exact instr?_plain rfl hreadable
  | getLocal _ | setLocal _ | jump _ | jumpIfFalse _ | callSuper _ =>
    apply instr?_ofWord rfl hreadable
    decide
  | getVar _ | setVar _ =>
    apply instr?_ofText rfl hreadable
    decide
  | call _ _ | callMethod _ _ | new _ _ => apply instr?_ofCall rfl hreadable <;> decide

theorem ofConstant_readable {depth : Nat} (hdepth : 0 < depth) (c : Constant) :
    isReadable depth (ofConstant c) := by
  cases c with
  | null | int _ | text _ => simp [ofConstant, isReadable, membersReadable, hdepth]
  | float x =>
    rw [ofConstant, ofFloat]
    split <;> simp [isReadable, membersReadable, hdepth]

/-- What is written for an instruction nests two deep if it pushes a constant, and else one deep. -/
theorem ofInstr_readable {depth : Nat} {i : Instr} (hdepth : 0 < depth)
    (hpush : ∀ c, i = .push c → 1 < depth) :
    isReadable depth (ofInstr i) := by
  cases i with
  | push c =>
    have hroom : 0 < depth - 1 := Nat.sub_pos_of_lt (hpush c rfl)
    rw [ofInstr, tagged_readable_iff]
    refine ⟨hdepth, ?_⟩
    simpa using ofConstant_readable hroom c
  | _ => simp [ofInstr, tagged_readable_iff, hdepth, isReadable, ofWord]

/-! ### Instructions as they are read -/

/-- An operand that can be written `depth` containers short of the limit. -/
def Operand.IsWritable (depth : Nat) : Operand → Prop
  | .constant c => 0 < depth ∧ c.isFinite
  | .text _ | .word _ => True

section Reading

variable {inBody : Bool} {depth : Nat} {j : Json} {i : Instr} {operands : List Operand}
  {forms : List (String × OperandForm)}

theorem OperandForm.read?_writable {form : OperandForm} {o : Operand} (h : form.read? j = some o)
    (hreadable : isReadable depth j) (hfinite : j.isFinite) : o.IsWritable depth := by
  cases form with
  | constant =>
    obtain ⟨c, hc, rfl⟩ := Option.map_eq_some_iff.mp h
    exact ⟨pos_of_constant? true hc hreadable, constant?_isFinite true hc hfinite⟩
  | text | word =>
    obtain ⟨_, _, rfl⟩ := Option.map_eq_some_iff.mp h
    trivial

theorem operandsOfMembers?_writable {members : List (String × Json)}
    (h : operandsOfMembers? members forms = some operands)
    (hsound : ∀ m ∈ members, isReadable depth m.2 ∧ m.2.isFinite) :
    ∀ o ∈ operands, o.IsWritable depth := by
  induction forms generalizing operands with
  | nil =>
    obtain rfl : operands = [] := by simpa [operandsOfMembers?] using h.symm
    simp
  | cons entry forms ih =>
    obtain ⟨_, hfound, hvalue⟩ := Option.bind_eq_some_iff.mp h
    obtain ⟨j, rfl, hread⟩ := Option.bind_eq_some_iff.mp hvalue
    obtain ⟨o, ho, hrest⟩ := Option.bind_eq_some_iff.mp hread
    obtain ⟨rest, hothers, hlast⟩ := Option.bind_eq_some_iff.mp hrest
    obtain rfl : o :: rest = operands := by simpa using hlast
    obtain ⟨hreadable, hfinite⟩ := hsound _ (mem_of_field? hfound)
    intro o' ho'
    obtain rfl | ho' := List.mem_cons.mp ho'
    · exact OperandForm.read?_writable ho hreadable hfinite
    · exact ih hothers o' ho'

theorem operandsOfItems?_writable {items : List Json}
    (h : operandsOfItems? items forms = some operands)
    (hsound : ∀ j ∈ items, isReadable depth j ∧ j.isFinite) :
    ∀ o ∈ operands, o.IsWritable depth := by
  induction items generalizing operands forms with
  | nil =>
    cases forms with
    | nil =>
      obtain rfl : operands = [] := by simpa [operandsOfItems?] using h.symm
      simp
    | cons => cases h
  | cons j items ih =>
    cases forms with
    | nil => cases h
    | cons entry forms =>
      rw [operandsOfItems?] at h
      obtain ⟨o, ho, hrest⟩ := Option.bind_eq_some_iff.mp h
      obtain ⟨rest, hothers, hlast⟩ := Option.bind_eq_some_iff.mp hrest
      obtain rfl : o :: rest = operands := by simpa using hlast
      obtain ⟨hreadable, hfinite⟩ := hsound j List.mem_cons_self
      intro o' ho'
      obtain rfl | ho' := List.mem_cons.mp ho'
      · exact OperandForm.read?_writable ho hreadable hfinite
      · exact ih hothers (fun j' hj' => hsound j' (List.mem_cons_of_mem j hj')) o' ho'

theorem mem_of_instrForm? {tag : Json} {form : InstrForm} (h : instrForm? inBody tag = some form) :
    form ∈ instrForms := by
  unfold instrForm? at h
  split at h
  · exact List.mem_of_find?_eq_some h
  · split at h
    · exact List.mem_of_getElem? h
    · cases h
  · cases h

/-- Only the first form makes instructions that push a constant. -/
theorem operands_of_push {form : InstrForm} (hform : form ∈ instrForms) {c : Constant}
    (h : form.make operands = some (.push c)) : operands = [.constant c] := by
  simp only [instrForms, List.mem_cons, List.not_mem_nil, or_false] at hform
  obtain rfl | hform := hform
  · simp only at h
    split at h
    · cases h
      rfl
    · cases h
  · rcases hform with rfl | rfl | rfl | rfl | rfl | rfl | rfl | rfl | rfl | rfl | rfl | rfl | rfl
      | rfl | rfl | rfl |
      rfl | rfl | rfl | rfl | rfl | rfl | rfl | rfl
    all_goals
      simp only [InstrForm.plain, InstrForm.ofText, InstrForm.ofWord, InstrForm.ofCall] at h
      split at h <;> cases h

/-- Every instruction that is read is made by a form from operands that could be written in its
place. -/
theorem parts_of_instr? (h : instr? inBody depth j = some i) (hfinite : j.isFinite) :
    0 < depth ∧ ∃ form ∈ instrForms, ∃ operands, form.make operands = some i ∧
      ∀ o ∈ operands, o.IsWritable (depth - 1) := by
  obtain ⟨_, hguard, hread⟩ := Option.bind_eq_some_iff.mp h
  have hreadable : isReadable depth j := by simpa using hguard
  split at hread
  case h_1 tag items =>
    obtain ⟨form, hform, hrest⟩ := Option.bind_eq_some_iff.mp hread
    obtain ⟨operands, hoperands, hmake⟩ := Option.bind_eq_some_iff.mp hrest
    simp only [isReadable, Bool.and_eq_true, decide_eq_true_eq, itemsReadable_iff] at hreadable
    simp only [isFinite, itemsFinite_iff] at hfinite
    refine ⟨hreadable.1, form, mem_of_instrForm? hform, operands, hmake, ?_⟩
    apply operandsOfItems?_writable hoperands
    intro j hj
    exact ⟨hreadable.2 j (List.mem_cons_of_mem tag hj), hfinite j (List.mem_cons_of_mem tag hj)⟩
  case h_2 =>
    obtain ⟨members, hmembers, hrest⟩ := Option.bind_eq_some_iff.mp hread
    obtain ⟨_, _, hrest⟩ := Option.bind_eq_some_iff.mp hrest
    obtain ⟨_, _, hrest⟩ := Option.bind_eq_some_iff.mp hrest
    obtain ⟨form, hform, hrest⟩ := Option.bind_eq_some_iff.mp hrest
    obtain ⟨operands, hoperands, hmake⟩ := Option.bind_eq_some_iff.mp hrest
    obtain ⟨written, rfl, hwritten⟩ := mem_of_members? hmembers
    simp only [isReadable, Bool.and_eq_true, decide_eq_true_eq, membersReadable_iff] at hreadable
    simp only [isFinite, membersFinite_iff] at hfinite
    refine ⟨hreadable.1, form, mem_of_instrForm? hform, operands, hmake, ?_⟩
    apply operandsOfMembers?_writable hoperands
    intro m hm
    have hin := hwritten m (List.mem_of_mem_filter hm)
    exact ⟨(hreadable.2 _ hin).2, hfinite _ hin⟩

/-- An instruction that is read can be written, and what is written for it needs no more room. -/
theorem writable_of_instr? (h : instr? inBody depth j = some i) (hfinite : j.isFinite) :
    i.isFinite ∧ isReadable depth (ofInstr i) := by
  obtain ⟨hdepth, form, hform, operands, hmake, hwritable⟩ := parts_of_instr? h hfinite
  have hpushed : ∀ c, i = .push c → 0 < depth - 1 ∧ c.isFinite := by
    rintro c rfl
    obtain rfl := operands_of_push hform hmake
    exact hwritable (.constant c) List.mem_cons_self
  constructor
  · cases i with
    | push c => exact (hpushed c rfl).2
    | _ => rfl
  · apply ofInstr_readable hdepth
    intro c hc
    have := (hpushed c hc).1
    omega

end Reading

/-! ### There and back -/

theorem code?_ofCode (inBody : Bool) {depth : Nat} {code : List Instr}
    (h : ∀ i ∈ code, i.isFinite ∧ isReadable (depth - 1) (ofInstr i)) :
    code? inBody depth (ofCode code) = some code :=
  mapM_written fun i hi => instr?_ofInstr inBody (h i hi).1 (h i hi).2

/-- Code is a list, so what it is read from leaves its instructions one container less. -/
theorem writable_of_code? {inBody : Bool} {depth : Nat} {j : Json} {code : List Instr}
    (h : code? inBody depth j = some code) (hfinite : j.isFinite) :
    ∀ i ∈ code, i.isFinite ∧ isReadable (depth - 1) (ofInstr i) := by
  obtain ⟨items, hitems, hread⟩ := Option.bind_eq_some_iff.mp h
  unfold array? at hitems
  split at hitems
  case h_2 => cases hitems
  case h_1 =>
    cases hitems
    simp only [isFinite, itemsFinite_iff] at hfinite
    intro i hi
    obtain ⟨item, hitem, hinstr⟩ := mem_mapM hread hi
    exact writable_of_instr? hinstr (hfinite item hitem)

/-- Code and constants without floats that are not finite come back from what is written for them.
Whatever is read from a document, however it is spelled, comes back when it is written and read
again, and so does whatever is read from a text, since the document that a text stands for has no
other numbers than finite ones. -/
theorem written_code_reads_back (inBody inBody' inCode inCode' : Bool) (depth : Nat) :
    (∀ code : List Instr, (∀ i ∈ code, i.isFinite) → 3 ≤ depth →
      code? inBody depth (ofCode code) = some code) ∧
    (∀ c : Constant, c.isFinite → constant? inCode (ofConstant c) = some c) ∧
    (∀ (j : Json) (code : List Instr), j.isFinite → code? inBody depth j = some code →
      code? inBody' depth (ofCode code) = some code) ∧
    (∀ (j : Json) (c : Constant), j.isFinite → constant? inCode j = some c →
      constant? inCode' (ofConstant c) = some c) ∧
    (∀ (text : String) (code : List Instr), readCode text = some code →
      code? inBody' maxDepth (ofCode code) = some code) ∧
    ∀ (text : String) (c : Constant), readConstant text = some c →
      constant? inCode' (ofConstant c) = some c := by
  refine ⟨?_, ?_, ?_, ?_, ?_, ?_⟩
  · intro code hfinite hdepth
    apply code?_ofCode
    intro i hi
    refine ⟨hfinite i hi, ofInstr_readable (by omega) ?_⟩
    intro c _
    omega
  · intro c hfinite
    exact (constant?_ofConstant inCode c).2 hfinite
  · intro j code hfinite hread
    exact code?_ofCode inBody' (writable_of_code? hread hfinite)
  · intro j c hfinite hread
    exact (constant?_ofConstant inCode' c).2 (constant?_isFinite inCode hread hfinite)
  · intro text code h
    obtain ⟨j, hparse, hread⟩ := Option.bind_eq_some_iff.mp h
    exact code?_ofCode inBody' (writable_of_code? hread (parse_isFinite hparse))
  · intro text c h
    obtain ⟨j, hparse, hread⟩ := Option.bind_eq_some_iff.mp h
    exact (constant?_ofConstant inCode' c).2
      (constant?_isFinite false hread (parse_isFinite hparse))

/-- Code with members nobody asks for, in another order, an array for an object and an integer for a
float. -/
def spelledOut : Json :=
  .array [
    .object [(some "v", .object [(some "v", .number (.nat 5)), (some "t", .string "Float")]),
      (some "note", .array [.null]), (some "op", .string "Push")],
    .array [.string "Push", .array [.string "Int", .number (.neg (-7))]],
    .array [.number (.nat 17), .string "say", .number (.nat 2)],
    .object [(some "op", .string "Return")]]

def spelledCode : List Instr :=
  [.push (.float (UInt64.toFloat 5)), .push (.int (-7)), .call "say" 2, .ret]

def spelledText : String := "[[\"Push\",[\"Float\",25e-1]],[\"Call\",\"say\",2]]"

theorem spelled_code_reads_back :
    code? true maxDepth spelledOut = some spelledCode ∧ code? false maxDepth (ofCode spelledCode) =
      some spelledCode ∧
    code? true maxDepth (ofCode [.push (.int (-7)), .ret]) = some [.push (.int (-7)), .ret] ∧
    constant? true (.array [.number (.nat 1), .number (.nat 8)]) = some (.int 8) ∧
    constant? false (ofConstant (.int 8)) = some (.int 8) ∧
    constant? true (ofConstant (.text "hi")) = some (.text "hi") ∧
    readCode spelledText = some [.push (.float 2.5), .call "say" 2] ∧
    code? false maxDepth (ofCode [.push (.float 2.5), .call "say" 2]) =
      some [.push (.float 2.5), .call "say" 2] ∧
    readConstant "[\"Int\",7]" = some (.int 7) ∧ constant? false (ofConstant (.int 7)) =
      some (.int 7) := by
  obtain ⟨hcode, hconstant, hreread, hreread', htext, htext'⟩ :=
    written_code_reads_back true false true false maxDepth
  have hspelled : code? true maxDepth spelledOut = some spelledCode := rfl
  have height : constant? true (.array [.number (.nat 1), .number (.nat 8)]) = some (.int 8) := rfl
  have hcoded : readCode spelledText = some [.push (.float 2.5), .call "say" 2] := by decide +kernel
  have hseven : readConstant "[\"Int\",7]" = some (.int 7) := by decide +kernel
  refine ⟨hspelled, hreread _ _ rfl hspelled, hcode _ ?_ (by decide), height,
    hreread' _ _ rfl height, ?_, hcoded, htext _ _ hcoded, hseven, htext' _ _ hseven⟩
  · simp [Instr.isFinite, Constant.isFinite]
  · exact hconstant (.text "hi") rfl

end Format

end ProcEngine
