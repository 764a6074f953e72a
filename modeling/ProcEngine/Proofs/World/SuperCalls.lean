import ProcEngine.Proofs.World.Loads
import ProcEngine.Proofs.World.Overriding
/-!
# Calling what is overridden

A script calls the proc that its own overrides, on the same receiver. In a world that has been
loaded, such calls visit the procs that the types on the way up declare, the nearest first and each
once.
-/

namespace ProcEngine

open Evaluator

namespace Activation

/-- The next instruction calls what the proc overrides, with the operands given. -/
def AtSuper (a : Activation) (args : List Value) : Prop :=
  ∃ (f : ScriptFrame) (argc : UInt64), a.frame = .script f ∧ f.locals.isSome ∧
    f.code[f.position]? = some (.callSuper argc) ∧ argc.toNat ≤ f.operands.length ∧
    args = (f.operands.take argc.toNat).reverse

variable {a d : Activation} {args : List Value} {rt rt' : Runtime} {fuel : Nat} {drive : Drive}

/-- The overridden proc is called on the same receiver for the same user; without one the call is a
fault. -/
theorem AtSuper.step (h : a.AtSuper args) (fuel : Nat) (drive : Drive) (rt : Runtime) :
    ∃ b : Activation, b.origin = a.origin ∧ a.fetch.2.step fuel drive a.fetch.1 rt =
      match (rt.proc a.proc).overridden with
      | some q => b.call q { src := a.src, usr := a.usr, arguments := { positional := args } } rt
      | none => .fault (.unknownProc a.proc.name "..") rt := by
  obtain ⟨⟨code, extra, position, operands, _ | slots⟩, argc, hframe, hlocals, hinstr,
    hargs, rfl⟩ := h
  · cases hlocals
  · let f : ScriptFrame := { code, extra, position := position + 1, operands, locals := some slots }
    have hexec : f.exec a.src a.usr (.callSuper argc) =
        .ok (.callSuper (operands.take argc.toNat).reverse,
          { f with operands := operands.drop argc.toNat }) := by
      simp only [ScriptFrame.exec, ScriptFrame.popArguments, f, if_neg (Nat.not_lt.mpr hargs)]
      rfl
    refine ⟨a.withFrame (.script { f with operands := operands.drop argc.toNat }), rfl, ?_⟩
    rw [step_fetch_script hframe]
    simp only [hinstr, Act.bind_apply, Act.lift_apply, hexec, meet, f, Act.get_apply]
    show (match (rt.proc a.proc).overridden with | some _ => _ | none => _ : Act Runtime _) rt = _
    cases (rt.proc a.proc).overridden <;> rfl

/-- With the code of `rt`, the activation comes to call what its proc overrides, and `d` is what is
called. -/
def SuperCalls (rt : Runtime) (a d : Activation) : Prop :=
  ∃ (a' : Activation) (args : List Value) (rt₁ : Runtime) (fuel : Nat) (drive : Drive)
    (b : Activation)
    (rt₂ : Runtime), a'.origin = a.origin ∧ Runtime.SameCode rt rt₁ ∧ a'.AtSuper args ∧
    a'.fetch.2.step fuel drive a'.fetch.1 rt₁ = .ok (b, .called d) rt₂

theorem SuperCalls.overridden (h : SuperCalls rt a d) : (rt.proc a.proc).overridden =
    some d.proc := by
  obtain ⟨a', args, rt₁, fuel, drive, b, rt₂, horigin, hsame, hat, hstep⟩ := h
  obtain ⟨b', _, hstep'⟩ := hat.step fuel drive rt₁
  have hproc : a'.proc = a.proc := congrArg (·.2.1) horigin
  have hcode : rt₁.proc a.proc = rt.proc a.proc := by rw [Runtime.proc, hsame.procs, Runtime.proc]
  rw [hstep, hproc, hcode] at hstep'
  cases hover : (rt.proc a.proc).overridden with
  | none =>
    rw [hover] at hstep'
    cases hstep'
  | some q =>
    rw [hover] at hstep'
    cases hstep'
    rfl

end Activation

namespace Runtime

variable {rt rt' : Runtime} {r : Registry} {w : CompiledWorld} {q : ProcRef} {qs : List ProcRef}

/-- Activations that call what their procs override, the first being one of the first proc, are
activations of the procs in turn, each once. Whichever is the last so far calls the next in its
turn, with the receiver and the user that it has itself; when there is no other, that is a fault. -/
structure Visited (rt : Runtime) (qs : List ProcRef) : Prop where
  once : (qs.map ProcRef.id).Nodup
  inTurn : ∀ as : List Activation, as.head?.map Activation.proc = qs.head? →
    as.IsChain (Activation.SuperCalls rt) →
    as.map Activation.proc <+: qs ∧ ∀ a, as.getLast? = some a →
      ∀ (a' : Activation) (args : List Value) (rt₁ : Runtime),
      a'.origin = a.origin → SameCode rt rt₁ → a'.AtSuper args → ∀ fuel drive, ∃ b : Activation,
        b.origin = a.origin ∧
        a'.fetch.2.step fuel drive a'.fetch.1 rt₁ =
          match qs[as.length]? with
          | some q =>
            b.call q { src := a.src, usr := a.usr, arguments := { positional := args } } rt₁
          | none => .fault (.unknownProc a.proc.name "..") rt₁

theorem Supers.prefix_of_isChain (h : rt.Supers q qs) {a : Activation} {as : List Activation}
    (ha : a.proc = q) (hcalls : (a :: as).IsChain (Activation.SuperCalls rt)) :
    (a :: as).map Activation.proc <+: qs := by
  induction as generalizing a q qs with
  | nil =>
    cases h with
    | last _ => simp [ha]
    | next _ _ => simp [ha]
  | cons d as ih =>
    rw [List.isChain_cons_cons] at hcalls
    have hover := hcalls.1.overridden
    rw [ha] at hover
    cases h with
    | last hlast => cases hlast.symm.trans hover
    | next hnext hrest =>
      cases hnext.symm.trans hover
      rw [List.map_cons, ha]
      exact (List.prefix_cons_inj q).mpr (ih hrest rfl hcalls.2)

theorem Supers.visited (h : rt.Supers q qs) : rt.Visited qs where
  once := h.nodup
  inTurn as hhead hcalls := by
    rw [h.head?] at hhead
    obtain ⟨a, rest, rfl⟩ : ∃ a rest, as = a :: rest := by
      cases as with
      | nil => cases hhead
      | cons a rest => exact ⟨a, rest, rfl⟩
    have hvisited := h.prefix_of_isChain (Option.some.inj hhead) hcalls
    refine ⟨hvisited, fun last hlast a' args rt₁ horigin hsame hat fuel drive => ?_⟩
    obtain ⟨b, hb, hstep⟩ := hat.step fuel drive rt₁
    have hproc : a'.proc = last.proc := congrArg (·.2.1) horigin
    have hinvocation : a'.invocation = last.invocation := congrArg (·.2.2.2) horigin
    have hplace : qs[rest.length]? = some last.proc := by
      have hmap : ((a :: rest).map Activation.proc)[rest.length]? = some last.proc := by
        rw [List.getLast?_eq_getElem?] at hlast
        rw [List.getElem?_map, show rest.length = (a :: rest).length - 1 by simp, hlast]
        rfl
      obtain ⟨_, rfl⟩ := hvisited
      rwa [List.getElem?_append_left (by simp)]
    have hover : (rt₁.proc last.proc).overridden = qs[(a :: rest).length]? := by
      rw [List.length_cons, ← h.overridden_getElem hplace, Runtime.proc, hsame.procs, Runtime.proc]
    rw [hproc, hover, Activation.src, Activation.usr, hinvocation] at hstep
    exact ⟨b, hb.trans horigin, hstep⟩

/-! ### Loaded worlds -/

theorem visited_nil (rt : Runtime) : rt.Visited [] where
  once := List.nodup_nil
  inTurn as hhead hcalls := by
    cases as with
    | nil => exact ⟨List.prefix_rfl, by simp⟩
    | cons a as => cases hhead

theorem proc_of_definition {o : ObjectRef} {d : Definition} (ho : rt.objects.definition o = .ok d)
    (x : String) :
    rt.objects.proc o x = match d.procs[x]? with
      | some q => .ok q
      | none => .error (.unknownProc d.path x) := by
  rw [ObjectTable.proc, ho]
  cases hp : d.procs[x]? with
  | none => simp [bind, Except.bind, hp]; rfl
  | some q => simp [bind, Except.bind, hp]; rfl

/-- Once a world is loaded, the procs that its types declare are linked to what the parents of the
types have by their names. So on a line of types that the world has all, an object of the first has
the nearest proc of a name that is declared, and from there calls of what is overridden visit all
others that are declared, the nearest first, and are at their end behind the last. -/
theorem loadWorld_links_overrides {text : String} {summary : LoadSummary}
    (hread : Format.readWorld text = some w) (hload : rt.loadWorld r text = (.ok summary, rt')) :
    (∀ ty ∈ w.types, ∃ d, rt'.objects.types[ty.path]? = some d ∧ rt.Overrides r rt' ty d) ∧
    ∀ ty line x, w.Line ty line → ∃ qs, Succession rt r rt' x line qs ∧
      (∀ (rt₁ : Runtime) o d, rt'.objects.types[ty.path]? = some d →
        rt₁.objects.definition o = .ok d →
        rt₁.objects.proc o x = match qs.head? with
          | some q => .ok q
          | none => .error (.unknownProc ty.path x)) ∧
      rt'.Visited qs := by
  have hnames := Format.namesApart_of_readWorld hread
  rw [loadWorld, hread] at hload
  obtain ⟨_, new, later, a, hloaded⟩ := loadCompiled_ok_iff.mp hload
  refine ⟨fun ty hty => hloaded.overrides hnames hty, fun ty line x hline => ?_⟩
  obtain ⟨qs, d, hqs, hd, hlookup⟩ := hloaded.succession hnames hline x
  refine ⟨qs, hqs, fun rt₁ o d' hd' ho => ?_, ?_⟩
  · cases hd.symm.trans hd'
    have hty : ty ∈ w.types := by cases hline <;> assumption
    obtain ⟨d', hd', hoverrides⟩ := hloaded.overrides hnames hty
    cases hd.symm.trans hd'
    rw [proc_of_definition ho, hlookup, hoverrides.path]
  · cases hhead : qs.head? with
    | none =>
      obtain rfl := List.head?_eq_none_iff.mp hhead
      exact visited_nil rt'
    | some q => exact (hqs.supers q hhead).visited

theorem family_cries_in_turn : ∃ rt₁ q q',
    loadWorld {} {} (familyText childText parentText) = (.ok { types := 2, procs := 0 }, rt₁) ∧
    q.name = "/b/proc/cry" ∧ q'.name = "/a/proc/cry" ∧ (rt₁.proc q).overridden = some q' ∧
    rt₁.Visited [q, q'] := by
  obtain ⟨hread, _⟩ := family_is_read
  have hload : loadWorld {} {} (familyText childText parentText) = (.ok { types := 2, procs := 0 },
      (loadCompiled {} {} { types := [childType, parentType] }).2) := by
    rw [loadWorld, hread]
    exact Prod.ext family_is_loaded rfl
  obtain ⟨htypes, hlines⟩ := loadWorld_links_overrides hread hload
  have hline : CompiledWorld.Line { types := [childType, parentType] } childType [childType,
      parentType] :=
    .step (by simp) rfl (.root (by simp) rfl)
  obtain ⟨qs, ⟨hmade, hsupers⟩, _, hvisited⟩ := hlines childType _ "cry" hline
  obtain ⟨q, _, hq, hrest, rfl⟩ := List.forall₂_cons_left_iff.mp hmade
  obtain ⟨q', _, hq', hnil, rfl⟩ := List.forall₂_cons_left_iff.mp hrest
  obtain rfl := List.forall₂_nil_left_iff.mp hnil
  exact ⟨_, q, q', hload, hq.called, hq'.called, (hsupers q rfl).overridden_getElem (i := 0) rfl,
    hvisited⟩

end Runtime

end ProcEngine
