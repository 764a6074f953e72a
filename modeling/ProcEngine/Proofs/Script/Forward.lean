import ProcEngine.Builtins
import ProcEngine.Proofs.Context.Ranking
import ProcEngine.Proofs.Context.Stages
import ProcEngine.Proofs.Object.Endings
import ProcEngine.Proofs.Script.Heights
/-!
# Code that only goes forward

A script whose jumps all lead to later positions has fewer instructions left after each step. Where
all procs that can be called are such scripts or the builtins, contexts come to an end: they may
call each other as they like, constructors included, since the limit of the context bounds how deep
that goes. What a step spends is `Runtime.Left.spends`.
-/

namespace ProcEngine

/-! ### Scripts -/

/-- Each instruction leads to later positions only. -/
def ForwardCode (code : Array Instr) : Prop :=
  ∀ p, (hp : p < code.size) → ∀ q ∈ code[p].next p, p < q

instance (code : Array Instr) : Decidable (ForwardCode code) :=
  inferInstanceAs (Decidable (∀ p, (hp : p < code.size) → ∀ q ∈ code[p].next p, p < q))

/-- The values that a call passes on. -/
def Demand.passed : Demand → List Value
  | .call _ args | .callMethod _ _ args | .callSuper args | .construct _ args => args
  | _ => []

namespace ScriptFrame

variable {f f' : ScriptFrame} {src usr : Option ObjectRef} {i : Instr} {d : Demand}

theorem pop_position {q : Value × ScriptFrame} (h : f.pop = .ok q) : q.2.position = f.position := by
  obtain ⟨v, f'⟩ := q
  obtain ⟨_, rfl⟩ := pop_ok h
  rfl

theorem popArguments_position {argc : UInt64} {q : List Value × ScriptFrame}
    (h : f.popArguments argc = .ok q) :
    q.2.position = f.position := by
  obtain ⟨args, f'⟩ := q
  obtain ⟨_, rfl⟩ := popArguments_ok h
  rfl

/-- Only jumps lead anywhere else. -/
theorem exec_position (h : f.exec src usr i = .ok (d, f')) :
    f'.position = f.position ∨ ∃ target, (i = .jump target ∨ i = .jumpIfFalse target) ∧
      f'.position = target.toNat := by
  cases i <;> simp only [exec, binary, bind, Except.bind, pure, Except.pure] at h <;>
    (repeat' split at h) <;>
    cases h <;> grind [→ pop_position, → popArguments_position, push]

theorem exec_next {p : Nat} (h : f.exec src usr i = .ok (d, f')) (hp : f.position = p + 1) :
    (∃ v, d = .finish v) ∨ f'.position ∈ i.next p := by
  have hposition := exec_position h
  rw [hp] at hposition
  cases i with
  | ret =>
    cases h
    exact .inl ⟨_, rfl⟩
  | crash =>
    obtain ⟨_, _, h⟩ := Except.of_bind_eq_ok h
    cases h
  | jump target =>
    cases h
    exact .inr (List.mem_singleton_self _)
  | jumpIfFalse target =>
    have heither : f'.position ∈ [p + 1, target.toNat] := by simpa using hposition
    exact .inr heither
  | _ => exact .inr (List.mem_singleton.mpr (by simpa using hposition))

theorem pop_operands {q : Value × ScriptFrame} (h : f.pop = .ok q) :
    q.2.operands.length + 1 = f.operands.length := by
  simp only [pop] at h
  split at h <;> cases h
  simp_all

theorem popArguments_operands {argc : UInt64} {q : List Value × ScriptFrame}
    (h : f.popArguments argc = .ok q) :
    q.2.operands.length + q.1.length = f.operands.length := by
  simp only [popArguments] at h
  split at h <;> cases h
  simp only [List.length_drop, List.length_reverse, List.length_take]
  omega

/-- An instruction leaves, and is owed, one operand more at most than it finds, and passes on no
more than it finds. -/
theorem exec_operands (h : f.exec src usr i = .ok (d, f')) :
    f'.operands.length + d.owed ≤ f.operands.length + 1 ∧ d.passed.length ≤ f.operands.length := by
  cases i <;> simp only [exec, binary, bind, Except.bind, pure, Except.pure] at h <;>
    (repeat' split at h) <;>
    cases h <;> grind [→ pop_operands, → popArguments_operands, push, Demand.owed, Demand.passed,
      List.length_cons]

/-- How many steps a script has left before its last one, if it never goes back. -/
def left (f : ScriptFrame) : Nat := f.code.size - f.position + if f.locals.isSome then 0 else 1

/-- Going forward, a script comes closer to its end, and the operands do not outnumber the positions
behind it. -/
theorem forward_of_exec (hcode : ForwardCode f.code) (hlocals : f.locals.isSome)
    (hi : f.code[f.position]? = some i) (hoperands : f.operands.length ≤ f.position)
    (h : { f with position := f.position + 1 }.exec src usr i = .ok (d, f')) :
    (∃ v, d = .finish v) ∨ f'.left < f.left ∧ f'.operands.length + d.owed ≤ f'.position := by
  obtain ⟨hposition, rfl⟩ := Array.getElem?_eq_some_iff.mp hi
  refine (exec_next h rfl).imp_right fun hnext => ?_
  have hlater := hcode f.position hposition _ hnext
  have hsame : f'.code = f.code := (exec_keeps h).1
  have hlocals' := exec_locals h hlocals
  have hmore : f'.operands.length + d.owed ≤ f.operands.length + 1 := (exec_operands h).1
  refine ⟨?_, by omega⟩
  simp only [left, hsame, hlocals, hlocals', if_true]
  omega

end ScriptFrame

/-! ### Routines -/

/-- A routine that asks nothing of anybody, and sleeps so many times at most. -/
inductive Routine.Rests : Nat → Routine → Prop
  | done (k : Nat) (v : Value) : Rests k (.done v)
  | fail (k : Nat) (e : Fault) : Rests k (.fail e)
  | sleep {k : Nat} {ticks : UInt64} {next : Except Fault Value → Routine} :
    (∀ v, Rests k (next (.ok v))) →
    Rests (k + 1) (.ask (.sleep ticks) next)

theorem Builtins.sleep_rests (i : Invocation) : (Builtins.sleep i).Rests 1 := by
  rw [Builtins.sleep]
  cases (i.arguments.get 0).asInt with
  | error e => exact .fail 1 e
  | ok ticks => exact .sleep fun _ => .done 0 _

/-! ### Procs -/

inductive Body.IsForward : Body → Prop
  | script {code : Array Instr} (locals : UInt64) : ForwardCode code →
    IsForward (.script code locals)
  | worldLog : IsForward (.handler Builtins.worldLog)
  | sleep (passThrough : Bool) : IsForward (.routine passThrough fun i _ => Builtins.sleep i)

/-- How many steps an activation of such a proc has before its last one. -/
def Body.steps : Body → Nat
  | .script code _ => code.size + 1
  | .handler _ => 0
  | .routine .. => 1

namespace Runtime

/-- The procs that a call of `p` may get to: by name, as procs of a type or by an override, or as
`p` itself. -/
inductive Callable (rt : Runtime) (p : ProcRef) : ProcRef → Prop
  | entry : Callable rt p p
  | init : Callable rt p Runtime.init
  | global {name : String} {q : ProcRef} : rt.globals[name]? = some q → Callable rt p q
  | method {d : Definition} {name : String} {q : ProcRef} : rt.objects.Defines d →
    d.procs[name]? = some q →
    Callable rt p q
  | initializer {d : Definition} {q : ProcRef} : rt.objects.Defines d → d.initializer = some q →
    Callable rt p q
  | overridden {q q' : ProcRef} : Callable rt p q → (rt.proc q).overridden = some q' →
    Callable rt p q'

/-- Whatever a call of `p` may get to only goes forward, and hooks come to an end. -/
structure IsForward (rt : Runtime) (p : ProcRef) : Prop where
  bodies : ∀ q, rt.Callable p q → q.id ≠ 0 → (rt.proc q).body.IsForward
  hooks : rt.objects.HooksEnd

/-- No activation that is called has more steps before its last one. -/
def longest (rt : Runtime) : Nat := max 2 ((rt.procs.toList.map fun p => p.body.steps).max?.getD 0)

/-- The scripts that a call of `p` may get to have room for their slots, with `most` values passed
to them. -/
def Roomy (rt : Runtime) (p : ProcRef) (most : Nat) : Prop := ∀ q code locals, rt.Callable p q →
  (rt.proc q).body = .script code locals →
    max (rt.proc q).signature.params.length most + locals.toNat ≤ ScriptFrame.maxRoom

/-- A script that a call of `p` may get to, with `most` values passed to it at most. What it has
passed itself bounds how many operands it has. -/
structure Scripted (rt : Runtime) (p : ProcRef) (most : Nat) (a : Activation)
    (f : ScriptFrame) : Prop where
  callable : rt.Callable p a.proc
  frame : a.frame = .script f
  body : (rt.proc a.proc).body = .script f.code f.extra
  forward : ForwardCode f.code
  signature : a.signature = (rt.proc a.proc).signature
  passed : a.invocation.arguments.positional.length ≤ most
  operands : f.operands.length ≤ f.position

/-- The activations of what a call of `p` may get to, with how many steps they have left before
their last one. -/
inductive Left (rt : Runtime) (p : ProcRef) (most : Nat) : Nat → Activation → Prop
  | script {a : Activation} {f : ScriptFrame} : rt.Scripted p most a f → Left rt p most f.left a
  | logs {a : Activation} : a.frame = .handler Builtins.worldLog → Left rt p most 0 a
  | rests {a : Activation} {f : RoutineFrame} {k : Nat} : a.frame = .routine f →
    (∀ r, a.resumption f = .ok r → r.Rests k) → Left rt p most k a
  | constructs {a : Activation} {object : ObjectRef} {i : Invocation} {stage : Construction.Stage} :
    a.AtStage object i stage → i.arguments.positional.length ≤ most →
      Left rt p most (2 - stage.rank) a

variable {rt₀ rt rt' : Runtime} {p q : ProcRef} {most : Nat}

theorem Evolves.proc (h : rt₀.Evolves rt) (q : ProcRef) : rt.proc q = rt₀.proc q := by
  rw [Runtime.proc, Runtime.proc, h.procs]

namespace Callable

variable {o : ObjectRef} {name : String} (hrt : rt₀.Evolves rt)
include hrt

theorem of_global (h : rt.global name = .ok q) : rt₀.Callable p q := by
  simp only [Runtime.global, hrt.globals] at h
  split at h <;> cases h
  exact .global ‹_›

theorem of_definition {d : Definition} (hd : rt.objects.definition o = .ok d)
    (hq : d.procs[name]? = some q) :
    rt₀.Callable p q :=
  .method (hrt.objects.defines (.of_definition hd)) hq

theorem of_proc (h : rt.objects.proc o name = .ok q) : rt₀.Callable p q := by
  obtain ⟨d, hd, h⟩ := Except.of_bind_eq_ok h
  split at h <;> cases h
  exact of_definition hrt hd ‹_›

theorem of_proc? (h : rt.objects.proc? o name = .ok (some q)) : rt₀.Callable p q := by
  obtain ⟨d, hd, h⟩ := Except.of_bind_eq_ok h
  exact of_definition hrt hd (Except.ok.inj h)

end Callable

theorem steps_le_longest (rt : Runtime) (q : ProcRef) : (rt.proc q).body.steps ≤ rt.longest := by
  have htwo : 2 ≤ rt.longest := Nat.le_max_left 2 _
  rw [proc]
  split
  · exact Nat.le_of_succ_le htwo
  · rename_i i _
    cases hp : rt.procs[i]? with
    | none => exact Nat.le_of_succ_le htwo
    | some p =>
      have hmem : p ∈ rt.procs.toList := Array.mem_toList_iff.mpr (Array.mem_of_getElem? hp)
      have hle : p.body.steps ≤ (rt.procs.toList.map fun p => p.body.steps).max?.getD 0 :=
        List.le_max?_getD_of_mem (List.mem_map_of_mem hmem)
      exact Nat.le_trans hle (Nat.le_max_right 2 _)

theorem IsForward.activate (h : rt₀.IsForward p) (hrt : rt₀.Evolves rt) (hq : rt₀.Callable p q)
    (id : ContextId) {i : Invocation} (hpassed : i.arguments.positional.length ≤ most) :
    ∃ k ≤ rt₀.longest, rt₀.Left p most k (rt.activate q id i).1 := by
  by_cases hinit : q.id = 0
  · have hproc : rt.proc q = Construction.proc := by rw [Runtime.proc, hinit]
    have hframe : (rt.activate q id i).1.frame = Construction.proc.body.frame := by
      rw [← hproc]
      rfl
    cases hsrc : i.src with
    | none =>
      refine ⟨0, Nat.zero_le _, .rests hframe fun r hr => ?_⟩
      cases hr
      show (Construction.routine i).Rests 0
      rw [Construction.routine, hsrc]
      exact .fail 0 _
    | some object =>
      have hbegun : (rt.activate q id i).1.AtStage object i .begun := ⟨rfl, hsrc, none, hframe⟩
      exact ⟨2, Nat.le_max_left 2 _, .constructs hbegun hpassed⟩
  · have hframe : (rt.activate q id i).1.frame = (rt₀.proc q).body.frame := by
      rw [← hrt.proc]
      rfl
    have hforward := h.bodies q hq hinit
    refine ⟨_, rt₀.steps_le_longest q, ?_⟩
    cases hcase : (rt₀.proc q).body with
    | script code locals =>
      rw [hcase] at hframe hforward
      cases hforward with
      | script _ hcode =>
        have hsignature : (rt.activate q id i).1.signature = (rt₀.proc q).signature := by
          rw [← hrt.proc]
          rfl
        exact .script (f := { code, extra := locals })
          ⟨hq, hframe, hcase, hcode, hsignature, hpassed, Nat.le_refl 0⟩
    | handler run =>
      rw [hcase] at hframe hforward
      cases hforward
      exact .logs hframe
    | routine passThrough start =>
      rw [hcase] at hframe hforward
      cases hforward
      refine .rests hframe fun r hr => ?_
      obtain ⟨j, v, rfl⟩ := Activation.start_of_resumption rfl hr
      exact Builtins.sleep_rests j

/-! ### Steps come to an end -/

theorem ask_ends {α : Type} (f : Runtime → Except Fault α) : (ask f rt).Ends := by
  simp only [ask]
  cases f rt <;> trivial

theorem onStore_ends {α : Type} {x : Act Store α} (h : (x rt.store).Ends) :
    (onStore x rt).Ends := by
  simp only [onStore]
  cases hrun : x rt.store with
  | ok a s | fault e s => trivial
  | breach b s | exhausted =>
    rw [hrun] at h
    exact h

section Ends

variable (h : rt₀.objects.HooksEnd) (hrt : rt₀.Evolves rt)
include h hrt

theorem meet_ends (a : Activation) (d : Demand) : ∃ n, (a.meet n d rt).Ends := by
  have hcall (q : ProcRef) (i : Invocation) (rt : Runtime) : (a.call q i rt).Ends := trivial
  have hserved (r : TableRequest) (hr : r ≠ .count)
      (f : r.Answer → Act Runtime (Activation × Signal))
      (hf : ∀ answer rt', (f answer rt').Ends) : ∃ n, ((onStore (Store.serve n r) >>= f) rt).Ends :=
    (h.serve hrt.objects r hr).imp fun _ hn => Act.bind_ends (onStore_ends hn) hf
  cases d with
  | proceed | result v | sleep ticks | finish v => exact ⟨0, trivial⟩
  | read o name => exact hserved (.read o name) (by rintro ⟨⟩) _ fun _ _ => trivial
  | write o name v => exact hserved (.write o name v) (by rintro ⟨⟩) _ fun _ _ => trivial
  | delete o => exact hserved (.delete o) (by rintro ⟨⟩) _ fun _ _ => trivial
  | call name args => exact ⟨0, Act.bind_ends (ask_ends _) fun q rt => hcall q _ rt⟩
  | callMethod o name args => exact ⟨0, Act.bind_ends (ask_ends _) fun q rt => hcall q _ rt⟩
  | callSuper args =>
    refine ⟨0, ?_⟩
    simp only [Activation.meet, Act.bind_apply, Act.get_apply]
    cases (rt.proc a.proc).overridden with
    | some q => exact hcall q _ rt
    | none => trivial
  | construct path args => exact hserved (.allocate path) (by rintro ⟨⟩) _ fun o rt => hcall _ _ rt

theorem consult_ends (object : ObjectRef) (i : Invocation) :
    ∃ n, (Construction.consult n object i rt).Ends := by
  simp only [Construction.consult, Act.bind_apply, ask]
  cases hd : rt.objects.definition object with
  | error e => exact ⟨0, trivial⟩
  | ok d =>
    dsimp only
    cases hhooks : d.hooks with
    | none => exact ⟨0, trivial⟩
    | some hooks =>
      have hknown := hrt.objects.defines (.of_definition hd)
      obtain ⟨n, hn⟩ := (h d hknown hooks hhooks rt.store hrt.objects).created object i.arguments
      exact ⟨n, Act.bind_ends (onStore_ends hn) fun _ _ => trivial⟩

theorem conclude_ends (object : ObjectRef) (i : Invocation) :
    ∃ n, (Construction.conclude n object i rt).Ends := by
  obtain ⟨n, hn⟩ := consult_ends h hrt object i
  refine ⟨n, Act.bind_ends hn fun wanted rt' => ?_⟩
  cases wanted with
  | false => trivial
  | true => exact Act.bind_ends (ask_ends _) fun q rt => by cases q <;> trivial

theorem move_ends (stage : Construction.Stage) (object : ObjectRef) (i : Invocation) :
    ∃ n, (stage.move n object i rt).Ends := by
  cases stage with
  | begun =>
    obtain ⟨n, hn⟩ := conclude_ends h hrt object i
    refine ⟨n, ?_⟩
    simp only [Construction.Stage.move, Act.bind_apply, ask]
    cases rt.objects.definition object with
    | error e => trivial
    | ok d =>
      dsimp only
      cases d.initializer with
      | some q => trivial
      | none => exact hn
  | initialized => exact conclude_ends h hrt object i
  | constructed => exact ⟨0, trivial⟩

theorem Left.ends {k : Nat} {a : Activation} (ha : rt₀.Left p most k a) :
    ∃ n, (a.fetch.2.step n (Context.run n) a.fetch.1 rt).EndsUnless (¬ rt₀.Roomy p most) := by
  cases ha with
  | @script _ f hscript =>
    simp only [Evaluator.step_fetch_script hscript.frame]
    generalize ({ f with position := f.position + 1 } : ScriptFrame) = fetched
    cases f.locals with
    -- Only where its arguments are bound may a script find no room for its slots.
    | none =>
      refine ⟨0, ?_⟩
      simp only [Act.bind_apply, Act.lift_apply]
      cases hbind : a.bind with
      | error e => trivial
      | ok bound =>
        simp only [← Act.bind_apply, Act.need_bind]
        split
        · trivial
        · rename_i hroom
          refine ⟨fun hroomy => hroom ?_, f.shortage_isOverflow bound⟩
          have hfits := hroomy _ _ _ hscript.callable hscript.body
          have hlength := Arguments.length_of_bind hbind
          have hpassed := hscript.passed
          rw [hscript.signature] at hlength
          rw [ScriptFrame.HasRoom, ScriptFrame.room, hlength]
          omega
    | some slots =>
      cases f.code[f.position]? with
      | none => exact ⟨0, trivial⟩
      | some i =>
        simp only [Act.bind_apply, Act.lift_apply]
        cases fetched.exec a.src a.usr i with
        | error e => exact ⟨0, trivial⟩
        | ok q => exact (meet_ends h hrt _ q.1).imp fun _ hn => hn.endsUnless _
  | logs hframe =>
    refine ⟨1, ?_⟩
    simp only [Activation.fetch, hframe, Activation.step, Act.bind_apply, Act.lift_apply]
    cases a.bound <;> trivial
  | rests hframe hrests =>
    refine ⟨0, ?_⟩
    rw [Activation.fetch_routine hframe]
    simp only [Activation.step, hframe, Activation.stepRoutine, Act.bind_apply, Act.lift_apply]
    cases hr : a.resumption _ with
    | error e => trivial
    | ok r =>
      dsimp only
      cases hrests r hr <;> trivial
  | @constructs _ object i stage hstage _ =>
    obtain ⟨n, hn⟩ := move_ends h hrt stage object i
    have hn := hn.endsUnless (¬ rt₀.Roomy p most)
    refine ⟨n, ?_⟩
    rw [hstage.fetch, hstage.step]
    cases hmove : stage.move n object i rt with
    | ok move rt' => cases move <;> trivial
    | fault e rt' => trivial
    | breach b rt' | exhausted =>
      rw [hmove] at hn
      exact hn

end Ends

/-! ### Steps leave less -/

theorem ask_ok {α : Type} {f : Runtime → Except Fault α} {x : α} (h : ask f rt = .ok x rt') :
    f rt = .ok x ∧ rt' = rt := by
  simp only [ask] at h
  split at h <;> cases h
  exact ⟨‹_›, rfl⟩

theorem consult_evolves (n : Nat) (object : ObjectRef) (i : Invocation) :
    Act.Preserves Evolves (Construction.consult n object i) := by
  refine (Carried.ask _).bind fun d => ?_
  cases d.hooks with
  | none => exact Act.Preserves.pure _
  | some hooks =>
    exact (Evolves.upkept.carried.onStore (Act.Preserves.run (Working.serve n) _)).bind fun _ =>
      Act.Preserves.pure _

section Stages

variable {object : ObjectRef} {i j : Invocation} {stage next : Construction.Stage} {n : Nat}
  (hrt : rt₀.Evolves rt)
include hrt

theorem callable_of_conclude (h : Construction.conclude n object i rt = .ok (.calls q j next) rt') :
    rt₀.Callable p q ∧ rt₀.Evolves rt' ∧ j.arguments = i.arguments := by
  obtain ⟨wanted, rt₁, hconsult, h⟩ := Act.of_bind_eq_ok h
  have hrt₁ := hrt.trans (consult_evolves n object i rt rt₁ (by rw [hconsult]; rfl))
  cases wanted with
  | false => cases h
  | true =>
    obtain ⟨found, rt₂, hask, h⟩ := Act.of_bind_eq_ok h
    obtain ⟨hfound, rfl⟩ := ask_ok hask
    cases found with
    | none => cases h
    | some q' =>
      cases h
      exact ⟨.of_proc? hrt₁ hfound, hrt₁, rfl⟩

theorem callable_of_move (hmove : stage.move n object i rt = .ok (.calls q j next) rt') :
    rt₀.Callable p q ∧ rt₀.Evolves rt' ∧ j.arguments.positional.length ≤
      i.arguments.positional.length := by
  have hconclude {rt : Runtime} (hrt : rt₀.Evolves rt)
      (hmove : Construction.conclude n object i rt = .ok (.calls q j next) rt') :
      rt₀.Callable p q ∧ rt₀.Evolves rt' ∧ j.arguments.positional.length ≤
        i.arguments.positional.length := by
    obtain ⟨hq, hrt', harguments⟩ := callable_of_conclude (p := p) hrt hmove
    exact ⟨hq, hrt', Nat.le_of_eq (by rw [harguments])⟩
  cases stage with
  | begun =>
    obtain ⟨d, rt₁, hask, hcalls⟩ := Act.of_bind_eq_ok hmove
    obtain ⟨hd, rfl⟩ := ask_ok hask
    cases hinitializer : d.initializer with
    | none =>
      rw [hinitializer] at hcalls
      exact hconclude hrt hcalls
    | some q' =>
      rw [hinitializer] at hcalls
      cases hcalls
      exact ⟨.initializer (hrt.objects.defines (.of_definition hd)) hinitializer, hrt,
        Nat.zero_le _⟩
  | initialized => exact hconclude hrt hmove
  | constructed => cases hmove

end Stages

theorem Scripted.receive {a : Activation} {f : ScriptFrame} (h : rt₀.Scripted p most a f)
    (howed : f.operands.length < f.position) (v : Value) :
    rt₀.Left p most f.left (a.receive v) := by
  simp only [Activation.receive, h.frame]
  exact .script (f := f.receive v)
    ⟨h.callable, rfl, h.body, h.forward, h.signature, h.passed, howed⟩

/-- An instruction has fewer operands to pass on than there are instructions. -/
theorem Scripted.passed_le {a : Activation} {f f' : ScriptFrame} {src usr : Option ObjectRef}
    {i : Instr} {d : Demand}
    (h : rt₀.Scripted p most a f) (hmost : rt₀.longest ≤ most) (hi : f.code[f.position]? = some i)
    (hexec : { f with position := f.position + 1 }.exec src usr i = .ok (d, f')) :
    d.passed.length ≤ most := by
  have hpassed : d.passed.length ≤ f.operands.length := (ScriptFrame.exec_operands hexec).2
  have hposition : f.position < f.code.size := (Array.getElem?_eq_some_iff.mp hi).1
  have hsteps := rt₀.steps_le_longest a.proc
  have hoperands := h.operands
  rw [h.body, Body.steps] at hsteps
  omega

section Spends

variable {a b : Activation} {signal : Signal} {i : Invocation} {j k n : Nat}
  {f : ScriptFrame} {d : Demand} (h : rt₀.IsForward p) (hrt : rt₀.Evolves rt)
include h hrt

theorem call_spends (hq : rt₀.Callable p q) (hj : j < k)
    (hleft : ∀ v, rt₀.Left p most j (a.receive v))
    (hpassed : i.arguments.positional.length ≤ most) (hcall : a.call q i rt = .ok (b, signal) rt') :
    signal.Spends (rt₀.Left p most) rt₀.longest k b := by
  cases hcall
  exact ⟨⟨j, hj, hleft⟩, h.activate hrt hq a.context hpassed⟩

theorem meet_spends (hscript : rt₀.Scripted p most a f) (hless : f.left < k)
    (howed : f.operands.length + d.owed ≤ f.position) (hpassed : d.passed.length ≤ most)
    (hmeet : a.meet n d rt = .ok (b, signal) rt') :
    signal.Spends (rt₀.Left p most) rt₀.longest k b := by
  cases d with
  | finish v =>
    cases hmeet
    trivial
  | proceed | sleep ticks =>
    cases hmeet
    exact ⟨_, hless, .script hscript⟩
  | result v =>
    cases hmeet
    obtain ⟨callable, frame, body, forward, signature, passed, operands⟩ := hscript
    exact ⟨_, hless, .script ⟨callable, frame, body, forward, signature, passed, operands⟩⟩
  | read o name =>
    obtain ⟨v, rt₁, _, hmeet⟩ := Act.of_bind_eq_ok hmeet
    cases hmeet
    exact ⟨_, hless, hscript.receive howed v⟩
  | write o name v | delete o =>
    obtain ⟨_, rt₁, _, hmeet⟩ := Act.of_bind_eq_ok hmeet
    cases hmeet
    exact ⟨_, hless, .script hscript⟩
  | call name args =>
    obtain ⟨q, rt₁, hask, hcall⟩ := Act.of_bind_eq_ok hmeet
    obtain ⟨hq, rfl⟩ := ask_ok hask
    exact call_spends h hrt (.of_global hrt hq) hless (hscript.receive howed) hpassed hcall
  | callMethod o name args =>
    obtain ⟨q, rt₁, hask, hcall⟩ := Act.of_bind_eq_ok hmeet
    obtain ⟨hq, rfl⟩ := ask_ok hask
    exact call_spends h hrt (.of_proc hrt hq) hless (hscript.receive howed) hpassed hcall
  | callSuper args =>
    simp only [Activation.meet, Act.bind_apply, Act.get_apply, hrt.proc] at hmeet
    cases hover : (rt₀.proc a.proc).overridden with
    | some q =>
      rw [hover] at hmeet
      exact call_spends h hrt (.overridden hscript.callable hover) hless (hscript.receive howed)
        hpassed hmeet
    | none =>
      rw [hover] at hmeet
      cases hmeet
  | construct path args =>
    obtain ⟨o, rt₁, hserved, hcall⟩ := Act.of_bind_eq_ok hmeet
    have hworked : rt.Evolves rt₁ :=
      Evolves.upkept.carried.onStore (Working.serve n _) rt rt₁ (by rw [hserved]; rfl)
    exact call_spends h (hrt.trans hworked) .init hless (hscript.receive howed) hpassed hcall

/-- Binding the arguments is a step of its own, and each instruction leads further. -/
theorem script_spends (hmost : rt₀.longest ≤ most) (hscript : rt₀.Scripted p most a f)
    (hstep : a.fetch.2.step n (Context.run n) a.fetch.1 rt = .ok (b, signal) rt') :
    signal.Spends (rt₀.Left p most) rt₀.longest f.left b := by
  rw [Evaluator.step_fetch_script hscript.frame] at hstep
  generalize hfetched : ({ f with position := f.position + 1 } : ScriptFrame) = fetched at hstep
  cases hlocals : f.locals with
  | none =>
    rw [hlocals] at hstep
    obtain ⟨values, rt₁, _, hstep⟩ := Act.of_bind_eq_ok hstep
    obtain ⟨_, hstep⟩ := Act.of_need hstep
    cases hstep
    have hstarted : rt₀.Scripted p most (a.withFrame (.script (f.start values))) (f.start values) :=
      ⟨hscript.callable, rfl, hscript.body, hscript.forward, hscript.signature, hscript.passed,
        hscript.operands⟩
    refine ⟨_, ?_, .script hstarted⟩
    simp [ScriptFrame.left, ScriptFrame.start, hlocals]
  | some slots =>
    rw [hlocals] at hstep
    cases hi : f.code[f.position]? with
    | none =>
      rw [hi] at hstep
      cases hstep
      trivial
    | some i =>
      rw [hi] at hstep
      simp only [Act.bind_apply, Act.lift_apply] at hstep
      cases hexec : fetched.exec a.src a.usr i with
      | error e =>
        rw [hexec] at hstep
        cases hstep
      | ok q =>
        rw [hexec] at hstep
        subst hfetched
        obtain ⟨v, hfinish⟩ | ⟨hless, howed⟩ :=
          ScriptFrame.forward_of_exec hscript.forward (by rw [hlocals]; rfl) hi
            hscript.operands hexec
        · dsimp only at hstep
          rw [hfinish] at hstep
          cases hstep
          trivial
        · obtain ⟨hcode, hextra⟩ := ScriptFrame.exec_keeps hexec
          have hbody : (rt₀.proc a.proc).body = .script q.2.code q.2.extra := by
            rw [hcode, hextra, hscript.body]
          have hon : rt₀.Scripted p most (a.withFrame (.script q.2)) q.2 :=
            ⟨hscript.callable, rfl, hbody, hcode ▸ hscript.forward, hscript.signature,
              hscript.passed, by omega⟩
          exact meet_spends h hrt hon hless howed (hscript.passed_le hmost hi hexec) hstep

omit h hrt in
theorem rests_spends {f : RoutineFrame} (hframe : a.frame = .routine f)
    (hrests : ∀ r, a.resumption f = .ok r → r.Rests k)
    (hstep : a.fetch.2.step n (Context.run n) a.fetch.1 rt = .ok (b, signal) rt') :
    signal.Spends (rt₀.Left p most) rt₀.longest k b := by
  rw [Activation.fetch_routine hframe] at hstep
  simp only [Activation.step, hframe, Activation.stepRoutine_eq, Act.bind_apply,
    Act.lift_apply] at hstep
  cases hr : a.resumption f with
  | error e =>
    rw [hr] at hstep
    cases hstep
  | ok r =>
    rw [hr] at hstep
    cases hrests r hr with
    | done =>
      cases hstep
      trivial
    | fail => cases hstep
    | @sleep k ticks next hnext =>
      cases hstep
      refine ⟨k, Nat.lt_succ_self k, .rests rfl fun r hr => ?_⟩
      cases hr
      exact hnext _

/-- A step leaves less, of the activation that takes it and, if it calls, within the limit of the
one that it calls. -/
theorem Left.spends (hmost : rt₀.longest ≤ most) (ha : rt₀.Left p most k a)
    (hstep : a.fetch.2.step n (Context.run n) a.fetch.1 rt = .ok (b, signal) rt') :
    signal.Spends (rt₀.Left p most) rt₀.longest k b := by
  cases ha with
  | script hscript => exact script_spends h hrt hmost hscript hstep
  | logs hframe =>
    simp only [Activation.fetch, hframe, Activation.step] at hstep
    obtain ⟨j, rt₁, _, hstep⟩ := Act.of_bind_eq_ok hstep
    obtain ⟨v, rt₂, _, hstep⟩ := Act.of_bind_eq_ok hstep
    cases hstep
    trivial
  | rests hframe hrests => exact rests_spends hframe hrests hstep
  | @constructs _ object i stage hstage hpassed =>
    rw [hstage.fetch, hstage.step] at hstep
    cases hmove : stage.move n object i rt with
    | ok move rt₁ =>
      rw [hmove] at hstep
      cases move with
      | returns =>
        cases hstep
        trivial
      | calls q j next =>
        obtain ⟨hq, hrt₁, hfewer⟩ := callable_of_move (p := p) hrt hmove
        have hrank := Construction.rank_of_move hmove
        have hlast : next.rank ≤ 2 := by cases next <;> decide
        exact call_spends h hrt₁ hq (by omega)
          (fun v => .constructs ((hstage.turned next).receive v) hpassed)
          (Nat.le_trans hfewer hpassed) hstep
    | fault e rt₁ | breach e rt₁ | exhausted =>
      rw [hmove] at hstep
      cases hstep

end Spends

/-! ### Contexts come to an end -/

def IsForward.ranking (h : rt₀.IsForward p) (hmost : rt₀.longest ≤ most) : Ranking rt₀ where
  left := rt₀.Left p most
  limit := rt₀.longest
  strained := ¬ rt₀.Roomy p most
  ends ha hrt := ha.ends h.hooks hrt
  spends ha hrt hstep := ha.spends h hrt hmost hstep

/-- How many values are passed at most to what a call gets to, where all of it goes forward. -/
def widest (rt : Runtime) (i : Invocation) : Nat := max rt.longest i.arguments.positional.length

/-- However the procs call each other, and whatever else goes on in between: each resume of the
context of a call comes to an end, by returning, by deferring or with a fault, and after so many of
them the context is finished. Only where one of the scripts may find no room for its slots can a
resume be broken off instead. -/
theorem IsForward.calls_end (h : rt.IsForward p) (i : Invocation) :
    ∃ most, ∀ seen c rt', rt.Called Evolves p i seen c rt' →
      (most ≤ seen.length → c.isFinished) ∧ c.StopsUnless (¬ rt.Roomy p (rt.widest i)) rt' := by
  have hnew : rt.Evolves rt.newContext.2 := .of_eq rfl rfl rfl
  obtain ⟨k, _, hleft⟩ := h.activate hnew .entry rt.newContext.1.id (Nat.le_max_right rt.longest _)
  let r := h.ranking (Nat.le_max_left rt.longest i.arguments.positional.length)
  obtain ⟨most, howes⟩ : ∃ most, r.Owes (rt.opened p i).1 most := ⟨_, .intro rfl hleft .nil⟩
  refine ⟨most, fun seen c rt' hcalled => ?_⟩
  cases hcalled with
  | refused hdepth hresumed =>
    -- A context that may not hold any activation has ended before it is resumed.
    have hstate := hresumed.handled.state_of_finished rfl
    have hfinished : c.isFinished := by
      rw [Context.isFinished, hstate]
      rfl
    refine ⟨fun _ => hfinished, Context.stopsUnless_of_ends (n := 0) ?_⟩
    rw [Context.resume_finished hfinished]
    trivial
  | opened hdepth hresumed =>
    exact howes.runs_out (.opened rt p i hdepth) (Evolves.upkept.opened rt p i) hresumed

/-- A type whose objects are made known by a hook and spin from the start. -/
def gear : Definition where
  path := "/gear"
  parent := none
  vars := ∅
  procs := (∅ : Names ProcRef).insert "New" ⟨1, "spin"⟩
  initializer := some ⟨3, "world_log"⟩
  hooks := some { Hooks.none with
    created := fun o _ => Program.request (i := TableCalls) (.note (.native (.object o))) }

def spinning : Runtime where
  store := { objects := ObjectTable.register {} gear }
  procs := #[
    { signature := { name := "spin" }
      body :=
        .script #[.push (.int 1), .call "sleep" 1, .jumpIfFalse 4, .ret, .new "/gear" 0,
          .call "spin" 0,
        .call "spin" 0, .ret] 0 },
    Builtins.sleepProc, Builtins.worldLogProc]
  globals := ((∅ : Names ProcRef).insert "spin" ⟨1, "spin"⟩).insert "sleep" ⟨2, "sleep"⟩
  maxDepth := 5

theorem spinning_isForward : spinning.IsForward ⟨1, "spin"⟩ where
  bodies q _ hq := by
    obtain ⟨_ | _ | _ | _ | id, name⟩ := q
    · exact absurd rfl hq
    · exact .script 0 (by decide)
    · exact .sleep false
    · exact .worldLog
    · exact .script 0 (by decide)
  hooks d hd hooks hhooks s _ := by
    obtain rfl : d = gear := by
      cases hd with
      | @registered path hpath =>
        simp only [spinning, objects, ObjectTable.register, Std.ExtTreeMap.getElem?_insert] at hpath
        split at hpath <;> cases hpath
        rfl
      | inhabited hslot => simp [spinning, objects, ObjectTable.register] at hslot
    cases hhooks
    exact ⟨fun _ _ => ⟨1, trivial⟩, fun _ _ _ => ⟨0, trivial⟩, fun _ _ _ _ => ⟨0, trivial⟩,
      fun _ => ⟨0, trivial⟩⟩

theorem spinning_isRoomy : spinning.Roomy ⟨1, "spin"⟩ (spinning.widest {}) := by
  intro q code locals _ hbody
  have hwidest : spinning.widest {} = 9 := by decide
  rw [hwidest]
  obtain ⟨_ | _ | _ | _ | id, name⟩ := q <;> cases hbody
  all_goals exact (by decide : max 0 9 + 0 ≤ ScriptFrame.maxRoom)

/-- However often it calls itself, a call of it comes to an end. -/
theorem spinning_ends : spinning.IsForward ⟨1, "spin"⟩ ∧
    ∃ most, ∀ seen c rt', spinning.Called Evolves ⟨1, "spin"⟩ {} seen c rt' →
      (most ≤ seen.length → c.isFinished) ∧ c.StopsUnless False rt' := by
  obtain ⟨most, hends⟩ := spinning_isForward.calls_end {}
  refine ⟨spinning_isForward, most, fun seen c rt' hcalled => ⟨(hends seen c rt' hcalled).1, ?_⟩⟩
  obtain ⟨n, hstops | ⟨hcramped, _⟩⟩ := (hends seen c rt' hcalled).2
  · exact ⟨n, Or.inl hstops⟩
  · exact absurd spinning_isRoomy hcramped

/-- A script that does nothing, with more slots than can be counted. -/
def overfull : Runtime where
  procs := #[{
    signature := { name := "overfull", params := ["x"] }
    body := .script #[] 18446744073709551615 }]

/-- A call of it goes forward and is broken off. -/
theorem overfull_breaks_off : overfull.IsForward ⟨1, "overfull"⟩ ∧
    ¬ ∃ most, ∀ seen c rt', overfull.Called Evolves ⟨1, "overfull"⟩ {} seen c rt' →
      (most ≤ seen.length → c.isFinished) ∧ c.StopsUnless False rt' := by
  refine ⟨⟨fun q _ hq => ?_, fun d hd => ?_⟩, ?_⟩
  · obtain ⟨_ | _ | id, name⟩ := q
    · exact absurd rfl hq
    · exact .script _ (by decide)
    · exact .script 0 (by decide)
  · cases hd with
    | registered hpath => simp [overfull, objects] at hpath
    | inhabited hslot => simp [overfull, objects] at hslot
  · rintro ⟨most, hends⟩
    obtain ⟨n, ⟨v, c', rt', hresume, _⟩ | ⟨hfalse, _⟩⟩ :=
      (hends [] _ _ (.opened (by decide) .start)).2
    · have hbreaks : (overfull.opened ⟨1, "overfull"⟩ {}).1.resume (n + 1)
          (overfull.opened ⟨1, "overfull"⟩ {}).2 =
          .breach .addOverflow (overfull.opened ⟨1, "overfull"⟩ {}).2 := rfl
      cases hbreaks.symm.trans (hresume (n + 1) (Nat.le_succ n))
    · exact hfalse

end Runtime

end ProcEngine
