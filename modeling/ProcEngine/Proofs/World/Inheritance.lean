import ProcEngine.Proofs.Context.Construction
import ProcEngine.Proofs.World.SuperCalls
/-!
# Inheritance

A definition is merged with its parent's once, when it is built, and is never walked again. What it
has is what a walk up the line of declarations finds which asks one after another, from its own to
that of the type without a parent.
-/

namespace ProcEngine

/-- What one clause of a declaration says of the type. -/
inductive Clause
  | parent (d : Definition)
  | var (name : String) (default : Value)
  | proc (name : String) (p : ProcRef)
  | initializer (p : ProcRef)
  | hooks (hooks : Hooks)

namespace Clause

def parent? : Clause → Option Definition
  | parent d => some d
  | _ => none

def var? (x : String) : Clause → Option Value
  | var name v => if name = x then some v else none
  | _ => none

def proc? (x : String) : Clause → Option ProcRef
  | proc name p => if name = x then some p else none
  | _ => none

def initializer? : Clause → Option ProcRef
  | initializer p => some p
  | _ => none

def hooks? : Clause → Option Hooks
  | hooks h => some h
  | _ => none

end Clause

/-- A type as far as its clauses have been gone through. -/
structure Draft where
  spec : TypeSpec
  parent : Option Definition := none

def Draft.add (t : Draft) : Clause → Draft
  | .parent d => { t with parent := some d }
  | .var name v => { t with spec := { t.spec with vars := t.spec.vars.insert name v } }
  | .proc name p => { t with spec := { t.spec with procs := t.spec.procs ++ [(name, p)] } }
  | .initializer p => { t with spec := { t.spec with initializer := some p } }
  | .hooks h => { t with spec := { t.spec with hooks := some h } }

/-- A type as it is declared: any clauses in any order, each any number of times. -/
structure Declaration where
  path : String
  clauses : List Clause

namespace Declaration

def draft (t : Declaration) : Draft := t.clauses.foldl Draft.add { spec := { path := t.path } }

/-- What `Runtime.buildType` makes of it. -/
def build (t : Declaration) : Definition := (t.draft.spec.build t.draft.parent).1

/-- What the last clause says that says anything. -/
def last {α : Type} (t : Declaration) (f : Clause → Option α) : Option α :=
  t.clauses.reverse.findSome? f

end Declaration

/-- What the nearest declaration says that says anything. -/
def nearest {α : Type} (line : List Declaration) (f : Clause → Option α) : Option α :=
  line.findSome? fun t => t.last f

/-- A definition and its ancestors, itself first. -/
def Definition.ancestors : Definition → List Definition
  | ⟨path, none, vars, procs, initializer, hooks⟩ => [⟨path, none, vars, procs, initializer, hooks⟩]
  | ⟨path, some parent, vars, procs, initializer, hooks⟩ =>
    ⟨path, some parent, vars, procs, initializer, hooks⟩ :: parent.ancestors

/-- The definition is built of the first declaration on the line, and its parent of the rest. -/
inductive Descends : Definition → List Declaration → Prop
  | root {t : Declaration} : t.last Clause.parent? = none → Descends t.build [t]
  | child {t : Declaration} {d : Definition} {line : List Declaration} :
    t.last Clause.parent? = some d →
    Descends d line → Descends t.build (t :: line)

/-! ### One declaration -/

section Clauses

variable {α : Type} {g : Draft → Option α} {f : Clause → Option α}

theorem last_foldl_add (hadd : ∀ t c, g (Draft.add t c) = (f c <|> g t)) (clauses : List Clause)
    (t : Draft) :
    g (clauses.foldl Draft.add t) = (clauses.reverse.findSome? f <|> g t) := by
  induction clauses generalizing t with
  | nil => rfl
  | cons c clauses ih =>
    rw [List.foldl_cons, ih, hadd, List.reverse_cons, List.findSome?_append]
    cases clauses.reverse.findSome? f <;> cases hc : f c <;> simp [hc]

theorem path_foldl_add (clauses : List Clause) (t : Draft) :
    (clauses.foldl Draft.add t).spec.path = t.spec.path := by
  induction clauses generalizing t with
  | nil => rfl
  | cons c clauses ih =>
    rw [List.foldl_cons, ih]
    cases c <;> rfl

/-- What every clause overwrites is in the end what the last one says. -/
theorem Declaration.draft_last (t : Declaration) (hadd : ∀ t c, g (Draft.add t c) = (f c <|> g t))
    (hstart : g { spec := { path := t.path } } = none) : g t.draft = t.last f := by
  rw [draft, last_foldl_add hadd, hstart, last]
  cases t.clauses.reverse.findSome? f <;> rfl

end Clauses

/-- Where a name is added more than once the last one stands. -/
theorem lookup_addProcs (table : Names ProcRef) (procs : List (String × ProcRef)) (x : String) :
    (addProcs table procs).1[x]? =
      (procs.reverse.findSome? (fun q => if q.1 = x then some q.2 else none) <|> table[x]?) := by
  induction procs generalizing table with
  | nil => rfl
  | cons q procs ih =>
    rw [addProcs_cons, ih, List.reverse_cons, List.findSome?_append, Std.ExtTreeMap.getElem?_insert]
    cases procs.reverse.findSome? (fun q => if q.1 = x then some q.2 else none) <;> by_cases hq :
      q.1 = x <;> simp [hq]

namespace Declaration

variable (t : Declaration)

@[simp] theorem path_build : t.build.path = t.path :=
  path_foldl_add t.clauses _

theorem parent_build : t.build.parent = t.last Clause.parent? :=
  t.draft_last (g := Draft.parent) (fun _ c => by cases c <;> rfl) rfl

theorem initializer_build : t.build.initializer = t.last Clause.initializer? :=
  t.draft_last (g := fun t => t.spec.initializer) (fun _ c => by cases c <;> rfl) rfl

theorem hooks_build :
    t.build.hooks = (t.last Clause.hooks? <|> t.build.parent.bind Definition.hooks) := by
  rw [← t.draft_last (g := fun t => t.spec.hooks) (fun _ c => by cases c <;> rfl) rfl]
  rfl

theorem vars_build (x : String) :
    t.build.vars[x]? = (t.last (Clause.var? x) <|> t.build.parent.bind fun d => d.vars[x]?) := by
  have hadd (t : Draft) (c : Clause) :
      (t.add c).spec.vars[x]? = (c.var? x <|> t.spec.vars[x]?) := by
    cases c with
    | var name v =>
      show (t.spec.vars.insert name v)[x]? =
        ((if name = x then some v else none) <|> t.spec.vars[x]?)
      rw [Std.ExtTreeMap.getElem?_insert]
      by_cases hname : name = x <;> simp [hname]
    | _ => rfl
  rw [← t.draft_last (g := fun t => t.spec.vars[x]?) hadd
    Std.ExtTreeMap.getElem?_empty, ← lookup_inherited]
  exact lookup_insertMany _ _ _

theorem procs_build (x : String) :
    t.build.procs[x]? = (t.last (Clause.proc? x) <|> t.build.parent.bind fun d => d.procs[x]?) := by
  let added (t : Draft) : Option ProcRef :=
    t.spec.procs.reverse.findSome? fun q => if q.1 = x then some q.2 else none
  have hadd (t : Draft) (c : Clause) : added (t.add c) = (c.proc? x <|> added t) := by
    cases c with
    | proc name p =>
      show (t.spec.procs ++ [(name, p)]).reverse.findSome? _ =
        ((if name = x then some p else none) <|> added t)
      rw [List.reverse_append]
      by_cases hname : name = x <;> simp [hname, added]
    | _ => rfl
  rw [← t.draft_last (g := added) hadd rfl, ← lookup_inherited]
  exact lookup_addProcs _ _ _

end Declaration

/-! ### The line -/

@[simp] theorem nearest_nil {α : Type} (f : Clause → Option α) : nearest [] f = none := rfl

theorem nearest_cons {α : Type} (t : Declaration) (line : List Declaration)
    (f : Clause → Option α) :
    nearest (t :: line) f = (t.last f <|> nearest line f) := by
  rw [nearest, List.findSome?_cons]
  cases t.last f <;> rfl

namespace Definition

theorem lineage_eq (d : Definition) : d.lineage = d.path :: (d.parent.map lineage).getD [] := by
  obtain ⟨path, _ | parent, vars, procs, initializer, hooks⟩ := d <;> rfl

theorem ancestors_eq (d : Definition) : d.ancestors = d :: (d.parent.map ancestors).getD [] := by
  obtain ⟨path, _ | parent, vars, procs, initializer, hooks⟩ := d <;> rfl

theorem lineage_eq_map : ∀ d : Definition, d.lineage = d.ancestors.map Definition.path
  | ⟨_, none, _, _, _, _⟩ => rfl
  | ⟨path, some parent, _, _, _, _⟩ => congrArg (path :: ·) parent.lineage_eq_map

theorem isSubtypeOf_iff {d : Definition} {path : String} : d.isSubtypeOf path ↔
    ∃ a ∈ d.ancestors, a.path = path := by
  rw [isSubtypeOf, lineage_eq_map, List.contains_iff_mem, List.mem_map]

end Definition

namespace Descends

variable {d : Definition} {line : List Declaration}

/-- What is inherited by each type from its parent is what the nearest declaration says. -/
theorem inherits {α : Type} {g : Definition → Option α} {f : Clause → Option α}
    (hbuild : ∀ t : Declaration, g t.build = (t.last f <|> t.build.parent.bind g))
    (h : Descends d line) :
    g d = nearest line f := by
  induction h with
  | @root t hparent =>
    rw [hbuild, t.parent_build, hparent, nearest_cons, nearest_nil, Option.bind_none]
  | @child t d line hparent _ ih =>
    rw [hbuild, t.parent_build, hparent, nearest_cons, Option.bind_some, ih]

theorem lineage (h : Descends d line) : d.lineage = line.map Declaration.path := by
  induction h with
  | @root t hparent => simp [Definition.lineage_eq, t.parent_build, hparent]
  | @child t d line hparent _ ih =>
    simp [Definition.lineage_eq t.build, t.parent_build, hparent, ih]

/-- An ancestor is built of the declarations from its own on. -/
theorem of_mem_ancestors (h : Descends d line) : ∀ a ∈ d.ancestors, ∃ rest, rest <:+ line ∧
    Descends a rest := by
  induction h with
  | @root t hparent =>
    have hself : t.build.ancestors = [t.build] := by
      simp [Definition.ancestors_eq t.build, t.parent_build, hparent]
    rw [hself]
    exact List.forall_mem_singleton.mpr ⟨_, List.suffix_rfl, .root hparent⟩
  | @child t d line hparent hrest ih =>
    have hself : t.build.ancestors = t.build :: d.ancestors := by
      simp [Definition.ancestors_eq t.build, t.parent_build, hparent]
    rw [hself]
    refine List.forall_mem_cons.mpr ⟨⟨_, List.suffix_rfl, .child hparent hrest⟩, fun a ha => ?_⟩
    obtain ⟨rest, hsuffix, hdescends⟩ := ih a ha
    exact ⟨rest, hsuffix.trans (List.suffix_cons t line), hdescends⟩

theorem nearest_isSome {α : Type} {rest : List Declaration} {f : Clause → Option α}
    (hsuffix : rest <:+ line) (hrest : (nearest rest f).isSome) : (nearest line f).isSome := by
  obtain ⟨t, ht, hlast⟩ := List.findSome?_isSome_iff.mp hrest
  exact List.findSome?_isSome_iff.mpr ⟨t, hsuffix.subset ht, hlast⟩

end Descends

/-! ### Objects -/

namespace ObjectTable

variable {t : ObjectTable} {o : ObjectRef} {d : Definition}

theorem proc?_of_definition (ho : t.definition o = .ok d) (x : String) :
    t.proc? o x = .ok d.procs[x]? := by
  rw [proc?, ho]
  rfl

end ObjectTable

namespace Moment

variable {m : Moment} {o : ObjectRef} {x : String} {argc : UInt64} {top : Activation}
  {f : ScriptFrame} {callers : List Activation}

/-- The script on top of `callers` is about to call what the object has by the name. -/
structure CallsOn (m : Moment) (o : ObjectRef) (x : String) (argc : UInt64) (top : Activation)
    (f : ScriptFrame) (callers : List Activation) : Prop where
  executes : m.Executes (.callMethod x argc) top f callers
  object : f.operands[argc.toNat]? = some (.object o)

/-- The script that has called. -/
def calling (top : Activation) (f : ScriptFrame) (argc : UInt64) : Activation :=
  top.withFrame
    (.script { f with position := f.position + 1, operands := f.operands.drop (argc.toNat + 1) })

theorem CallsOn.report (h : m.CallsOn o x argc top f callers) : m.report =
    match m.runtime.objects.proc o x with
    | .ok q =>
      .ok (calling top f argc, .called (m.runtime.activate q top.context (passed o top f argc)).1)
        (m.runtime.activate q top.context (passed o top f argc)).2
    | .error e => .fault e m.runtime := by
  obtain ⟨hlt, hget⟩ := List.getElem?_eq_some_iff.mp h.object
  have hdrop : f.operands.drop argc.toNat = .object o :: f.operands.drop (argc.toNat + 1) := by
    rw [List.drop_eq_getElem_cons hlt, hget]
  have hexec : { f with position := f.position + 1 }.exec top.src top.usr (.callMethod x argc) =
      .ok (.callMethod o x (f.operands.take argc.toNat).reverse, { f with
        position := f.position + 1, operands := f.operands.drop (argc.toNat + 1) }) := by
    simp only [ScriptFrame.exec, ScriptFrame.popArguments, if_neg (Nat.lt_asymm hlt),
      bind, Except.bind, ScriptFrame.pop, hdrop]
    rfl
  rw [h.executes.report hexec]
  simp only [Activation.meet, Act.bind_apply, Runtime.ask]
  cases m.runtime.objects.proc o x <;> rfl

end Moment

/-- The definition has what a walk up the line of declarations finds, and so have its objects. -/
structure Merges (d : Definition) (line : List Declaration) : Prop where
  lineage : d.lineage = line.map Declaration.path
  vars : ∀ x : String, d.vars[x]? = nearest line (Clause.var? x)
  procs : ∀ x : String, d.procs[x]? = nearest line (Clause.proc? x)
  hooks : d.hooks = nearest line Clause.hooks?
  /-- The initializer is not inherited. -/
  initializer : d.initializer = line.head?.bind fun t => t.last Clause.initializer?
  subtype : ∀ path, d.isSubtypeOf path ↔ ∃ a ∈ d.ancestors, a.path = path
  /-- Whatever an ancestor has is there by the same name. -/
  resolves : ∀ a ∈ d.ancestors, (∀ x ∈ a.vars, x ∈ d.vars) ∧ ∀ x ∈ a.procs, x ∈ d.procs
  /-- A variable is stored with the object once it has been assigned. -/
  stored : ∀ (t : ObjectTable) (o : ObjectRef) (object : Object) (x : String), t.get? o =
    some object →
    object.definition = d → t.stored o x =
      match object.vars[x]? <|> nearest line (Clause.var? x) with
      | some v => .ok (object, v)
      | none => .error (.unknownVariable d.path x)
  proc? : ∀ (t : ObjectTable) (o : ObjectRef) (x : String), t.definition o = .ok d →
    t.proc? o x = .ok (nearest line (Clause.proc? x))
  /-- A script that calls by the name on an object calls the nearest proc with the object as
  receiver, and what is on the operands as arguments. -/
  calls :
    ∀ (past : List Moment) (m : Moment) (o : ObjectRef) (x : String) (argc : UInt64)
      (top : Activation)
    (f : ScriptFrame) (callers : List Activation), Course past m.context →
      m.CallsOn o x argc top f callers →
    m.runtime.objects.definition o = .ok d →
      match nearest line (Clause.proc? x) with
      | some q =>
        let (callee, rt) := m.runtime.activate q top.context (Moment.passed o top f argc)
        if callers.length + 1 < m.context.maxDepth then
          m.outcome =
            .ok (.running (m.context.on (callee :: Moment.calling top f argc :: callers))) rt
        else m.EndsWith (.stackOverflow m.context.maxDepth) rt
      | none => m.EndsWith (.unknownProc d.path x) m.runtime

/-- Whatever is declared along the line and how often, and however long the line is, a definition
has of its variables, procs and hooks those of the nearest type that declares them, and of
initializers its own. -/
theorem Descends.merges {d : Definition} {line : List Declaration} (h : Descends d line) :
    Merges d line := by
  have hvars {d : Definition} {line : List Declaration} (h : Descends d line) (x : String) :
      d.vars[x]? = nearest line (Clause.var? x) :=
        h.inherits (g := fun d => d.vars[x]?) fun t => t.vars_build x
  have hprocs {d : Definition} {line : List Declaration} (h : Descends d line) (x : String) :
      d.procs[x]? = nearest line (Clause.proc? x) :=
        h.inherits (g := fun d => d.procs[x]?) fun t => t.procs_build x
  refine {
    lineage := h.lineage
    vars := hvars h
    procs := hprocs h
    hooks := h.inherits Declaration.hooks_build
    initializer := ?_
    subtype := fun path => Definition.isSubtypeOf_iff
    resolves := fun a ha => ?_
    stored := fun t o object x ho hd => ?_
    proc? := fun t o x ho => by rw [ObjectTable.proc?_of_definition ho, hprocs h]
    calls := fun past m o x argc top f callers hcourse hcalls ho => ?_ }
  -- Only the initializer is not inherited.
  · cases h with
    | root | child => exact Declaration.initializer_build _
  · obtain ⟨rest, hsuffix, hdescends⟩ := h.of_mem_ancestors a ha
    refine ⟨fun x hx => ?_, fun x hx => ?_⟩
    · rw [Std.ExtTreeMap.mem_iff_isSome_getElem?, hvars hdescends] at hx
      rw [Std.ExtTreeMap.mem_iff_isSome_getElem?, hvars h]
      exact nearest_isSome hsuffix hx
    · rw [Std.ExtTreeMap.mem_iff_isSome_getElem?, hprocs hdescends] at hx
      rw [Std.ExtTreeMap.mem_iff_isSome_getElem?, hprocs h]
      exact nearest_isSome hsuffix hx
  · have hstored := t.stored_of_get? ho x
    unfold Object.variable? at hstored
    rw [hd, hvars h] at hstored
    exact hstored
  · have hown : top.context = m.context.id :=
      hcourse.coherent.own top (by rw [hcalls.executes.stack]; exact List.mem_cons_self)
    have hreport := hcalls.report
    rw [Runtime.proc_of_definition ho, hprocs h] at hreport
    cases hnearest : nearest line (Clause.proc? x) with
    | some q =>
      rw [hnearest] at hreport
      exact Moment.outcome_of_called hcalls.executes.stack hown hreport
    | none =>
      rw [hnearest] at hreport
      exact Moment.outcome_of_fault hcalls.executes.stack hreport

/-- The orc has the last of the two blows that mobs have been given, and of the hit points those of
mobs. -/
theorem three_generations_merge :
    let slap : ProcRef := ⟨1, "slap"⟩
    let poke : ProcRef := ⟨2, "poke"⟩
    let punch : ProcRef := ⟨3, "punch"⟩
    let obj : Declaration :=
      ⟨"/obj", [.proc "hit" slap, .var "hp" (.int 1), .var "name" .null, .initializer slap]⟩
    let mob : Declaration :=
      ⟨"/mob", [.var "hp" (.int 5), .proc "hit" poke, .parent obj.build, .hooks Hooks.none,
      .var "hp" (.int 9), .proc "hit" punch]⟩
    let orc : Declaration := ⟨"/orc", [.parent mob.build, .var "rage" (.int 2), .initializer poke]⟩
    Merges orc.build [orc, mob, obj] ∧ Merges mob.build [mob, obj] ∧
      orc.build.procs["hit"]? = some punch ∧
      orc.build.vars["hp"]? = some (.int 9) ∧ orc.build.vars["name"]? = some .null ∧
      orc.build.hooks = some Hooks.none ∧ orc.build.initializer = some poke ∧
        mob.build.initializer = none := by
  intro slap poke punch obj mob orc
  have hmob : Descends mob.build [mob, obj] := .child rfl (.root rfl)
  have horc : Merges orc.build [orc, mob, obj] := Descends.merges (.child rfl hmob)
  exact ⟨horc, Descends.merges hmob, horc.procs "hit", horc.vars "hp", horc.vars "name", horc.hooks,
    horc.initializer, (Descends.merges hmob).initializer⟩

end ProcEngine
