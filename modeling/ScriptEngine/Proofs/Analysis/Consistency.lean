import Mathlib.Data.Nat.Find
import ScriptEngine.Proofs.Analysis.Records

/-!
# Consistency of the tables

The tables of a script refer to each other by number, and nothing looks whether there is an entry
with such a number when they are read.  They are filled in many places: with what functions declare,
with the variables of `catch` clauses and `with` statements, and with global variables at the first
use of their names.  The names of a body are kept twice, in order and by name.

## Main definitions

* `Node.Resolved` : all names in a node are resolved.
* `Analysis.InRange` : all numbers in the tables are those of entries.
* `Analysis.Lists` : a body lists what it declares.
* `Analysis.TakesAll` : the body of a function has a variable for each of its parameters.
* `Analysis.NotesOwn`, `Analysis.StoredApart` : the variables of scopes and those that are captured.
* `Program.Consistent` : the tables fit together.

## Main statements

* `Program.Scoped.opens` : every function of a script has a body of its own.
* `Program.Scoped.not_madeUp` : no name that a script declares is made up.
* `Program.consistent_of_analyze` : the tables of a script fit together.
-/

namespace ScriptEngine

/-! ### Functions of a script -/

section

variable (a : Analysis) (origin : VariableId → NodeId)

/-- All names in a node are resolved. -/
def Node.Resolved (env : Environment) : Node → Prop
  | .program p => stmtsResolved a origin env p.body
  | .function f => f.Resolved a origin env
  | .body _ ss => stmtsResolved a origin env ss
  | .statement s => s.Resolved a origin env
  | .block b => b.Resolved a origin env
  | .handler h => h.Resolved a origin env
  | .clause (.mk _ test ss) => optionResolved a origin env test ∧ stmtsResolved a origin env ss
  | .declaration _ ds => declaratorsResolved a origin env ds
  | .declarator (.mk _ x init) => x.Resolved a env ∧ optionResolved a origin env init
  | .expression e => e.Resolved a origin env
  | .property (.mk _ _ value) => value.Resolved a origin env
  | .identifier _ => True

end

section

variable {a : Analysis} {origin : VariableId → NodeId} {env : Environment}

theorem exprsResolved_iff {es : List Expr} :
    exprsResolved a origin env es ↔ ∀ e ∈ es, (Node.expression e).Resolved a origin env := by
  induction es with
  | nil => simp [exprsResolved]
  | cons e es ih => simp [exprsResolved, ih, Node.Resolved]

theorem elementsResolved_iff {es : List (Option Expr)} :
    elementsResolved a origin env es ↔ ∀ e ∈ es.filterMap id,
      (Node.expression e).Resolved a origin env := by
  induction es with
  | nil => simp [elementsResolved]
  | cons e es ih => cases e <;> simp_all [elementsResolved, Node.Resolved]

theorem propertiesResolved_iff {ps : List Property} :
    propertiesResolved a origin env ps ↔ ∀ p ∈ ps, (Node.property p).Resolved a origin env := by
  induction ps with
  | nil => simp [propertiesResolved]
  | cons p ps ih =>
    obtain ⟨⟩ := p
    simp [propertiesResolved, ih, Node.Resolved]

theorem stmtsResolved_iff {ss : List Stmt} :
    stmtsResolved a origin env ss ↔ ∀ s ∈ ss, (Node.statement s).Resolved a origin env := by
  induction ss with
  | nil => simp [stmtsResolved]
  | cons s ss ih => simp [stmtsResolved, ih, Node.Resolved]

theorem declaratorsResolved_iff {ds : List Declarator} :
    declaratorsResolved a origin env ds ↔ ∀ d ∈ ds, (Node.declarator d).Resolved a origin env := by
  induction ds with
  | nil => simp [declaratorsResolved]
  | cons d ds ih =>
    obtain ⟨span, x, _ | init⟩ :=
      d <;> simp [declaratorsResolved, ih, Node.Resolved, optionResolved, and_assoc]

theorem clausesResolved_iff {cs : List SwitchClause} :
    clausesResolved a origin env cs ↔ ∀ c ∈ cs, (Node.clause c).Resolved a origin env := by
  induction cs with
  | nil => simp [clausesResolved]
  | cons c cs ih =>
    obtain ⟨span, _ | test, body⟩ :=
      c <;> simp [clausesResolved, ih, Node.Resolved, optionResolved, and_assoc]

theorem optionResolved_iff {e : Option Expr} :
    optionResolved a origin env e ↔ ∀ m ∈ e.toList.map Node.expression,
      m.Resolved a origin env := by
  cases e <;> simp [optionResolved, Node.Resolved]

theorem Target.resolved_toExpr {t : Target} :
    t.toExpr.Resolved a origin env ↔ t.Resolved a origin env := by
  cases t <;> exact Iff.rfl

namespace Node.Resolved

/-- The parts of an expression are resolved where it stands. -/
theorem expression {e : Expr} (h : e.Resolved a origin env) :
    ∀ m ∈ e.nodes, m.Resolved a origin env := by
  cases e with
  | array => simpa [Expr.nodes] using elementsResolved_iff.mp h
  | object => simpa [Expr.nodes] using propertiesResolved_iff.mp h
  | sequence => simpa [Expr.nodes] using exprsResolved_iff.mp h
  | call | construct => simpa [Expr.nodes] using ⟨h.1, exprsResolved_iff.mp h.2⟩
  | member m =>
    cases m <;> simpa [Expr.nodes, Expr.Resolved, Member.Resolved, Node.Resolved] using h
  | literal | this | identifier => simp [Expr.nodes, Node.Resolved]
  | function | unary | binary | logical | conditional | update | assign =>
    simpa [Expr.nodes, Expr.Resolved, Node.Resolved, Target.resolved_toExpr] using h

/-- The parts of a statement are resolved where it stands, apart from those with scopes of their
own. -/
theorem statement {s : Stmt} (h : s.Resolved a origin env) :
    ∀ m ∈ s.nodes, ∃ env', m.Resolved a origin env' := by
  have same (hs : ∀ m ∈ s.nodes, m.Resolved a origin env) : ∀ m ∈ s.nodes, ∃ env',
      m.Resolved a origin env' :=
    fun m hm => ⟨env, hs m hm⟩
  cases s with
  | function f => exact List.forall_mem_singleton.mpr ⟨_, h.2⟩
  | «with» =>
    obtain ⟨hobject, v, -, -, -, hbody⟩ := h
    exact List.forall_mem_cons.mpr ⟨⟨_, hobject⟩, List.forall_mem_singleton.mpr ⟨_, hbody⟩⟩
  | «switch» => exact same (by simpa [Stmt.nodes] using ⟨h.1, clausesResolved_iff.mp h.2⟩)
  | declaration => exact same (by simpa [Stmt.nodes, Stmt.Resolved, Node.Resolved] using h)
  | ret _ e =>
    refine same ?_
    cases e with
    | none => exact List.forall_mem_nil _
    | some e => exact List.forall_mem_singleton.mpr h
  | conditional _ _ _ alternate =>
    refine same ?_
    cases alternate <;> simpa [Stmt.nodes, Stmt.Resolved, Node.Resolved] using h
  | tryCatch _ _ c f =>
    refine same ?_
    cases c <;> cases f <;> simpa [Stmt.nodes, Stmt.Resolved, Node.Resolved] using h
  | «for» _ init test update =>
    obtain ⟨hinit, htest, hupdate, hbody⟩ := h
    refine same (List.forall_mem_append.mpr
      ⟨?_, List.forall_mem_append.mpr ⟨optionResolved_iff.mp htest,
      List.forall_mem_append.mpr ⟨optionResolved_iff.mp hupdate,
        List.forall_mem_singleton.mpr hbody⟩⟩⟩)
    cases init with
    | nothing => exact List.forall_mem_nil _
    | declaration | expression => exact List.forall_mem_singleton.mpr hinit
  | forIn _ left =>
    obtain ⟨hleft, hright, hbody⟩ := h
    refine same (List.forall_mem_cons.mpr ⟨?_, by simpa using ⟨hright, hbody⟩⟩)
    cases left with
    | declaration i => trivial
    | target t => exact Target.resolved_toExpr.mpr hleft
  | expression | block | labeled | throw | «while» | doWhile =>
    exact same (by simpa [Stmt.nodes, Stmt.Resolved, Node.Resolved, and_comm] using h)
  | empty | debugger | brk | cont => exact same (List.forall_mem_nil _)

/-- The parts of a node are resolved, each in the scopes around it. -/
theorem part {n m : Node} (h : n.Resolved a origin env) (hm : m ∈ n.parts) :
    ∃ env', m.Resolved a origin env' := by
  cases n with
  | program | body =>
    obtain ⟨s, hs, rfl⟩ := List.mem_map.mp hm
    exact ⟨env, stmtsResolved_iff.mp h s hs⟩
  | function f =>
    simp only [parts, List.mem_append, List.mem_map, List.mem_singleton] at hm
    obtain ⟨i, -, rfl⟩ | ⟨i, -, rfl⟩ | rfl := hm
    · exact ⟨env, trivial⟩
    · exact ⟨env, trivial⟩
    · obtain ⟨⟩ := f
      exact ⟨_, h.2⟩
  | statement s => exact statement h m hm
  | block b =>
    obtain ⟨span, body⟩ := b
    obtain ⟨s, hs, rfl⟩ := List.mem_map.mp hm
    exact ⟨env, stmtsResolved_iff.mp h s hs⟩
  | handler c =>
    obtain ⟨span, param, b⟩ := c
    obtain ⟨v, -, -, -, hb⟩ := h
    simp only [parts, List.mem_cons, List.not_mem_nil, or_false] at hm
    obtain rfl | rfl := hm
    · exact ⟨env, trivial⟩
    · exact ⟨_, hb⟩
  | clause c =>
    obtain ⟨span, test, ss⟩ := c
    refine ⟨env, ?_⟩
    rcases List.mem_append.mp hm with hm | hm
    · exact optionResolved_iff.mp h.1 m hm
    · obtain ⟨s, hs, rfl⟩ := List.mem_map.mp hm
      exact stmtsResolved_iff.mp h.2 s hs
  | declaration =>
    obtain ⟨d, hd, rfl⟩ := List.mem_map.mp hm
    exact ⟨env, declaratorsResolved_iff.mp h d hd⟩
  | declarator d =>
    obtain ⟨span, x, init⟩ := d
    rcases List.mem_cons.mp hm with rfl | hm
    · exact ⟨env, trivial⟩
    · exact ⟨env, optionResolved_iff.mp h.2 m hm⟩
  | expression e => exact ⟨env, expression h m hm⟩
  | property p =>
    obtain ⟨span, key, value⟩ := p
    obtain rfl := List.mem_singleton.mp hm
    exact ⟨env, h⟩
  | identifier => cases hm

theorem of_contains {n m : Node} (hn : n.Contains m) (h : n.Resolved a origin env) :
    ∃ env', m.Resolved a origin env' := by
  induction hn generalizing env with
  | self => exact ⟨env, h⟩
  | part mem _ ih =>
    obtain ⟨env', h'⟩ := h.part mem
    exact ih h'

end Node.Resolved

/-- All functions of a script have a body. -/
theorem Program.Scoped.opens {p : Program} (h : p.Scoped a origin) {source : String}
    (hp : Program.parse source = .ok p) {f : Func} (hf : f ∈ p.funcs) : ∃ env, a.Opens env f := by
  have hprogram : (Node.program p).Resolved a origin [⟨0, []⟩] := h.resolved
  obtain ⟨env, hfunc⟩ := hprogram.of_contains (Program.contains_of_mem_funcs hp hf)
  obtain ⟨⟩ := f
  exact ⟨env, hfunc.1⟩

theorem isName_arguments : IsName "arguments" :=
  ⟨'a', "rguments".toList, rfl, by decide⟩

/-- No name that a script declares is made up. -/
theorem Program.Scoped.not_madeUp {p : Program} (h : p.Scoped a origin) {source : String}
    (hp : Program.parse source = .ok p) {id : FunctionId} {x : String}
    (hx : (a.body id).declared.contains x = true) (n : Nat) : ¬ MadeUp n x := by
  have hnamed := Program.isNamed_of_parse hp
  suffices hx : x = "" ∨ IsName x by
    intro hmade
    rcases hx with rfl | hx
    · exact absurd hmade.head? (by simp)
    · exact hmade.not_isName hx
  have hprogram : (Node.body p.span p.body).IsNamed := .intro (fun i hi => by cases hi) fun m hm =>
      hnamed.part hm
  have called {span : Span} {body : List Stmt} (hbody : (Node.body span body).IsNamed)
      (hx : x ∈ (bodyFunctions body).map Func.name) : x = "" ∨ IsName x := by
    obtain ⟨f, hf, rfl⟩ := List.mem_map.mp hx
    exact (hbody.functions hf).name
  rcases Nat.lt_or_ge id a.bodies.size with hid | hid
  · rcases Resolve.exists_func (Program.wellNumbered_of_parse hp)
        (h.bodies_size ▸ hid) with rfl | ⟨f, hf, rfl⟩
    · rcases h.declared x hx with hx | hx | ⟨o, ho, i, hi, rfl⟩
      · exact .inr (hprogram.varNames hx)
      · exact called hprogram hx
      · have := Program.isName_of_parse hp o ho
        unfold Occurrence.IsNamed at this
        rw [hi] at this
        exact .inr this
    · have hfunc := hnamed.of_contains (Program.contains_of_mem_funcs hp hf)
      have hbody : Node.body f.bodySpan f.body ∈ (Node.function f).parts := by simp [Node.parts]
      obtain ⟨env, hopens⟩ := h.opens hp hf
      rcases (hopens.binds x).mp hx with hx | rfl | hx | hx | ⟨-, i, hi, rfl⟩
      · obtain ⟨i, hi, rfl⟩ := List.mem_map.mp hx
        exact .inr (hfunc i (.of_mem (by simp [Node.parts, hi])))
      · exact .inr isName_arguments
      · exact .inr ((hfunc.part hbody).varNames hx)
      · exact called (hfunc.part hbody) hx
      · exact .inr (hfunc i (.of_mem (by simp [Node.parts, hi])))
  · rw [a.body_of_size_le hid] at hx
    cases hx

/-! ### Consistent tables -/

end

/-- The last parameter with a name stands at a position. -/
structure Func.LastNamed (f : Func) (x : String) (i : Nat) : Prop where
  name : f.params[i]?.map (·.name) = some x
  last : ∀ j, i < j → f.params[j]?.map (·.name) ≠ some x

namespace Analysis

variable (a : Analysis)

/-- The numbers of variables and bodies in the tables are those of their entries. -/
structure InRange : Prop where
  vars : ∀ v < a.vars.size, a.Covers (a.var v)
  number : ∀ id < a.bodies.size, (a.body id).id = id
  parent : ∀ id q, (a.body id).parent = some q → q < a.bodies.size
  declared : ∀ id, ∀ e ∈ (a.body id).declared.entries, e.first < a.vars.size ∧
    e.current < a.vars.size
  params : ∀ id, ∀ v ∈ (a.body id).params, v < a.vars.size
  arguments : ∀ id v, (a.body id).arguments = some v → v < a.vars.size
  selfBinding : ∀ id v, (a.body id).selfBinding = some v → v < a.vars.size
  synthetic : ∀ id, ∀ v ∈ (a.body id).synthetic, v < a.vars.size
  closedOver : ∀ id, ∀ v ∈ (a.body id).closedOver, v < a.vars.size
  layouts : ∀ l < a.layouts.size, (a.layout l).body < a.bodies.size
  references : ∀ (n : NodeId) v, a.references[n]? = some (some v) → v < a.vars.size
  withVariables : ∀ (n : NodeId) v, a.withVariables[n]? = some (some v) → v < a.vars.size

/-- A body lists its own variables in the order of their declaration, and a name denotes the one
among them that has this name. -/
structure Lists (id : FunctionId) : Prop where
  order : (a.body id).declared.order.Pairwise (· < ·)
  names : ∀ x v, (a.body id).declared.get? x = some v ↔ v ∈ (a.body id).declared.order ∧
    (a.var v).name = x
  owner : ∀ v ∈ (a.body id).declared.order, (a.var v).body = id

/-- The body of a function has a variable for each parameter.  It is called as the parameter is, and
it knows the last position of its name. -/
structure TakesAll (f : Func) : Prop where
  names : (a.body f.id).params.map (fun v => (a.var v).name) = f.params.map (·.name)
  owned : ∀ v ∈ (a.body f.id).params, (a.var v).kind = .parameter ∧ (a.var v).body = f.id
  index : ∀ v ∈ (a.body f.id).params, ∃ i, (a.var v).index = some i ∧ f.LastNamed (a.var v).name i

/-- A body notes variables of its own, each of them once, and only those as captured that a record
may hold. -/
structure NotesOwn (id : FunctionId) : Prop where
  synthetic_nodup : (a.body id).synthetic.Nodup
  synthetic : ∀ v ∈ (a.body id).synthetic, (a.var v).body = id
  closedOver_nodup : (a.body id).closedOver.Nodup
  closedOver : ∀ v ∈ (a.body id).closedOver, (a.var v).body = id ∧ (a.var v).isCapturable = true

/-- The variables of `catch` clauses and `with` statements are stored under names of their own,
which are not declared either. -/
structure StoredApart : Prop where
  injective : ∀ id id' v v', v ∈ (a.body id).synthetic → v' ∈ (a.body id').synthetic →
    (a.var v).storageName = (a.var v').storageName → v = v'
  declared : ∀ id, ∀ v ∈ (a.body id).synthetic, ∀ id',
    (a.body id').declared.contains (a.var v).storageName = false

end Analysis

/-- The tables of a script fit together. -/
structure Program.Consistent (p : Program) (a : Analysis) : Prop where
  inRange : a.InRange
  bodies : ∀ id, id < a.bodies.size ↔ id = 0 ∨ ∃ f ∈ p.funcs, f.id = id
  declared : ∀ id < a.bodies.size, a.Lists id
  params : (a.body 0).params = [] ∧ ∀ f ∈ p.funcs, a.TakesAll f
  noted : ∀ id < a.bodies.size, a.NotesOwn id
  apart : a.StoredApart
  parent : (a.body 0).parent = none ∧
    ∀ id, 0 < id → id < a.bodies.size → ∃ q, (a.body id).parent = some q ∧ q < id

/-! ### Tables of a script -/

theorem Func.exists_lastNamed {f : Func} {i : Identifier} (hi : i ∈ f.params) :
    ∃ j, f.LastNamed i.name j := by
  obtain ⟨k, hk, heq⟩ := List.getElem_of_mem hi
  have hnamed : f.params[k]?.map (·.name) =
      some i.name := by simp [List.getElem?_eq_getElem hk, heq]
  let Named (j : Nat) : Prop := f.params[j]?.map (·.name) = some i.name
  refine ⟨Nat.findGreatest Named f.params.length, @Nat.findGreatest_spec k Named _ _ hk.le hnamed,
    fun j hj hjnamed => ?_⟩
  obtain ⟨p, hp, -⟩ := Option.map_eq_some_iff.mp hjnamed
  exact Nat.findGreatest_is_greatest hj (List.getElem?_eq_some_iff.mp hp).1.le hjnamed

namespace Analysis

variable {r a : Analysis} {id : FunctionId}

section

variable (hs : r.Sound) (h : r.SameScopes a)

include hs h

theorem Sound.lists (id : FunctionId) : a.Lists id := by
  have hb := hs.body id
  obtain ⟨_, _, hbody⟩ := h.body id
  have hvar (v : VariableId) : (a.var v).name = (r.var v).name ∧
      (a.var v).body = (r.var v).body := by
    obtain ⟨_, _, hv⟩ := h.var v
    simp [hv]
  refine ⟨?_, fun x v => ?_, fun v hv => ?_⟩
  · rw [hbody]
    exact hb.tidy.order
  · rw [hbody, (hvar v).1]
    constructor
    · exact fun hx => ⟨hb.tidy.mem_order hx, (hb.declared x v hx).2⟩
    · rintro ⟨hv, rfl⟩
      obtain ⟨x, hx⟩ := hb.tidy.exists_get? hv
      rwa [(hb.declared x v hx).2]
  · rw [hbody] at hv
    obtain ⟨x, hx⟩ := hb.tidy.exists_get? hv
    rw [(hvar v).2]
    exact (hb.declared x v hx).1.body

theorem Sound.notesOwn (id : FunctionId) : a.NotesOwn id := by
  have hb := hs.body id
  obtain ⟨_, _, hbody⟩ := h.body id
  have hvar (v : VariableId) : (a.var v).kind = (r.var v).kind ∧
      (a.var v).body = (r.var v).body := by
    obtain ⟨_, _, hv⟩ := h.var v
    simp [hv]
  refine ⟨?_, fun v hv => ?_, ?_, fun v hv => ⟨?_, ?_⟩⟩ <;> rw [hbody] at *
  · exact hb.synthetic_nodup
  · rw [(hvar v).2]
    exact (hb.synthetic v hv).body
  · exact hb.closedOver_nodup
  · rw [(hvar v).2]
    exact (hb.closedOver v hv).body
  · rw [Variable.isCapturable_iff, (hvar v).1]
    exact (show [VariableKind.parameter, .local] ⊆ [.local, .parameter, .arguments] by decide)
      (hb.closedOver v hv).kind

theorem Opens.takesAll {env : Environment} {f : Func} (ho : r.Opens env f) : a.TakesAll f := by
  have hb := hs.body f.id
  obtain ⟨_, _, hbody⟩ := h.body f.id
  refine ⟨?_, fun v hv => ?_, fun v hv => ?_⟩
  · have hfinal : (fun v => (a.var v).name) = fun v => (r.var v).name := funext fun v => by
      obtain ⟨_, _, hvar⟩ := h.var v
      rw [hvar]
    refine List.map_injective_iff.mpr (fun _ _ => Option.some.inj) ?_
    rw [hfinal, hbody]
    calc (List.map (fun v => (r.var v).name) (r.body f.id).params).map some
        = ((r.body f.id).params.map some).map (Option.map fun v => (r.var v).name) := by simp
      _ = (f.params.map (·.name)).map some := by
        rw [ho.takes.params, List.map_map, List.map_map]
        refine List.map_congr_left fun i hi => ?_
        obtain ⟨v, hv⟩ := ho.takes.exists_get? hi
        simp [hv, (hb.declared i.name v hv).2]
  · rw [hbody] at hv
    obtain ⟨i, hi, hget⟩ := ho.takes.exists_of_mem hv
    obtain ⟨_, _, hvar⟩ := h.var v
    rw [hvar]
    refine ⟨(ho.kinds i.name v hget).trans ?_, (hb.declared i.name v hget).1.body⟩
    exact if_pos (List.mem_map_of_mem hi)
  · rw [hbody] at hv
    obtain ⟨i, hi, hget⟩ := ho.takes.exists_of_mem hv
    obtain ⟨_, _, hvar⟩ := h.var v
    have hname := (hb.declared i.name v hget).2
    obtain ⟨j, hj⟩ := Func.exists_lastNamed hi
    obtain ⟨k, hk, hknamed⟩ := Option.map_eq_some_iff.mp hj.name
    rw [hvar]
    refine ⟨j, ho.takes.index j k v hk (hknamed ▸ hget) fun l m hl hm hmnamed => ?_, hname ▸ hj⟩
    exact hj.last l hl (by simp [hm, hmnamed, hknamed])

end

end Analysis

namespace Program.Scoped

variable {r a : Analysis} {origin : VariableId → NodeId} {p : Program} {source : String}

/-- A body belongs to the script or to one of its functions. -/
theorem body_cases (h : p.Scoped r origin) (hp : Program.parse source = .ok p) (id : FunctionId) :
    id < r.bodies.size ↔ id = 0 ∨ ∃ f ∈ p.funcs, f.id = id := by
  have hn := Program.wellNumbered_of_parse hp
  rw [h.bodies_size]
  refine ⟨Resolve.exists_func hn, ?_⟩
  rintro (rfl | ⟨f, hf, rfl⟩)
  · exact hn.functionCount_pos
  · exact ((Resolve.mem_ids_iff hn).mp (List.mem_map_of_mem hf)).2

/-- The variable of a parameter is declared. -/
theorem exists_get?_of_params (h : p.Scoped r origin) (hp : Program.parse source = .ok p)
    {id : FunctionId} {v : VariableId} (hv : v ∈ (r.body id).params) :
    ∃ x, (r.body id).declared.get? x = some v := by
  rcases Nat.lt_or_ge id r.bodies.size with hid | hid
  · rcases (h.body_cases hp id).mp hid with rfl | ⟨f, hf, rfl⟩
    · rw [h.params] at hv
      cases hv
    · obtain ⟨env, hopens⟩ := h.opens hp hf
      obtain ⟨i, -, hi⟩ := hopens.takes.exists_of_mem hv
      exact ⟨i.name, hi⟩
  · rw [r.body_of_size_le hid] at hv
    cases hv

theorem inRange (h : p.Scoped r origin) (hp : Program.parse source = .ok p) (ha : r.LaidOut a)
    (howned : a.LayoutsOwned) : a.InRange := by
  have hb (id : FunctionId) := h.sound.body id
  have hvars := ha.same.vars_size
  have hbodies := ha.same.bodies_size
  have hdeclared {id : FunctionId} {x : String} {v : VariableId}
      (hv : (r.body id).declared.get? x = some v) :
      v < a.vars.size := hvars ▸ ((hb id).declared x v hv).1.bound
  refine
    { vars := fun v hv => ?_
      number := fun id hid => ?_
      parent := fun id q hq => ?_
      declared := fun id e he => ?_
      params := fun id v hv => ?_
      arguments := fun id v hv => ?_
      selfBinding := fun id v hv => ?_
      synthetic := fun id v hv => ?_
      closedOver := fun id v hv => ?_
      layouts := fun l hl => ?_
      references := fun n v hv => ?_
      withVariables := fun n v hv => ?_ }
  · obtain ⟨_, _, hvar⟩ := ha.same.var v
    have hcovers := h.sound.covers v (hvars ▸ hv)
    rw [hvar]
    exact ⟨hbodies ▸ hcovers.owner, fun w hw => hvars ▸ hcovers.fallback w hw,
      fun w hw => ⟨hvars ▸ (hcovers.withChain w hw).1, hbodies ▸ (hcovers.withChain w hw).2⟩⟩
  · obtain ⟨_, _, hbody⟩ := ha.same.body id
    rw [hbody]
    exact (hb id).number (hbodies ▸ hid)
  · have hid : id < a.bodies.size := by
      by_contra hge
      rw [a.body_of_size_le (not_lt.mp hge)] at hq
      cases hq
    exact ((hb id).parent q (ha.same.parent id ▸ hq)).trans hid
  · obtain ⟨_, _, hbody⟩ := ha.same.body id
    rw [hbody] at he
    have hfirst := hdeclared ((hb id).tidy.get? he)
    exact ⟨hfirst, (hb id).tidy.current e he ▸ hfirst⟩
  · obtain ⟨_, _, hbody⟩ := ha.same.body id
    rw [hbody] at hv
    obtain ⟨x, hx⟩ := h.exists_get?_of_params hp hv
    exact hdeclared hx
  · obtain ⟨_, _, hbody⟩ := ha.same.body id
    rw [hbody] at hv
    exact hvars ▸ ((hb id).arguments v hv).bound
  · obtain ⟨_, _, hbody⟩ := ha.same.body id
    rw [hbody] at hv
    exact hvars ▸ ((hb id).selfBinding v hv).1.bound
  · obtain ⟨_, _, hbody⟩ := ha.same.body id
    rw [hbody] at hv
    exact hvars ▸ ((hb id).synthetic v hv).bound
  · obtain ⟨_, _, hbody⟩ := ha.same.body id
    rw [hbody] at hv
    exact hvars ▸ ((hb id).closedOver v hv).bound
  · by_contra hge
    have hlayout := howned l hl
    rw [a.body_of_size_le (not_lt.mp hge)] at hlayout
    cases hlayout
  · rw [ha.same.references] at hv
    exact hvars ▸ h.sound.references n v hv
  · rw [ha.same.withVariables] at hv
    exact hvars ▸ h.sound.withVariables n v hv

theorem storedApart {number : VariableId → Option Nat} (h : p.Scoped r origin)
    (hp : Program.parse source = .ok p) (hs : r.Stored number) (ha : r.SameScopes a) :
    a.StoredApart := by
  -- each of them has a number of its own, since its body does not declare it
  have hnumbered {id : FunctionId} {v : VariableId} (hv : v ∈ (a.body id).synthetic) :
      ∃ n, number v = some n ∧ MadeUp n (a.var v).storageName := by
    obtain ⟨_, _, hbody⟩ := ha.body id
    obtain ⟨_, _, hvar⟩ := ha.var v
    rw [hbody] at hv
    have howns := (h.sound.body id).synthetic v hv
    cases hn : number v with
    | some n =>
      refine ⟨n, rfl, ?_⟩
      rw [hvar]
      exact (hs.numbered v n hn).2
    | none =>
      have hid := (h.sound.covers v howns.bound).owner
      have hdeclared := hs.declared v howns.bound hn (List.mem_singleton.mp howns.kind) hid
      rw [howns.body] at hdeclared
      exact absurd hdeclared ((h.sound.body id).apart v hv _)
  refine ⟨fun id id' v v' hv hv' heq => ?_, fun id v hv id' => ?_⟩
  · obtain ⟨n, hn, hmade⟩ := hnumbered hv
    obtain ⟨n', hn', hmade'⟩ := hnumbered hv'
    obtain rfl := hmade.unique (heq ▸ hmade')
    exact hs.injective v v' n hn hn'
  · obtain ⟨n, -, hmade⟩ := hnumbered hv
    obtain ⟨_, _, hbody⟩ := ha.body id'
    by_contra hdeclared
    rw [Bool.not_eq_false, hbody] at hdeclared
    exact h.not_madeUp hp hdeclared n hmade

end Program.Scoped

/-- The tables of a script that was parsed and analyzed fit together. -/
theorem Program.consistent_of_analyze {source : String} {p : Program} {options : CompileOptions}
    {a : Analysis} (hp : Program.parse source = .ok p) (ha : analyze p options = .ok a) :
    p.Consistent a := by
  obtain ⟨r, origin, number, h, hs, hlaid, howned⟩ := Program.exists_scoped_of_analyze hp ha
  have hsame := hlaid.same
  have hbodies (id : FunctionId) := hsame.bodies_size ▸ h.body_cases hp id
  refine
    { inRange := h.inRange hp hlaid howned
      bodies := hbodies
      declared := fun id _ => h.sound.lists hsame id
      params := ⟨?_, fun f hf => ?_⟩
      noted := fun id _ => h.sound.notesOwn hsame id
      apart := h.storedApart hp hs hsame
      parent := ⟨(hsame.parent 0).trans h.parent, fun id hpos hid => ?_⟩ }
  · obtain ⟨_, _, hbody⟩ := hsame.body 0
    rw [hbody]
    exact h.params
  · obtain ⟨env, hopens⟩ := h.opens hp hf
    exact hopens.takesAll h.sound hsame
  · rcases (hbodies id).mp hid with rfl | ⟨f, hf, rfl⟩
    · exact absurd hpos (Nat.lt_irrefl 0)
    · obtain ⟨env, hopens⟩ := h.opens hp hf
      exact ⟨_, (hsame.parent f.id).trans hopens.parent, hopens.above⟩

/-- A function with a repeated parameter, in a script with a `catch` clause and a `with`
statement. -/
theorem Program.consistent_of_analyze_repeated : ∃ p a,
    Program.parse "function f(x, x) { try { } catch (e) { with (e) { } } }" = .ok p ∧
    analyze p ⟨false, true⟩ = .ok a ∧ (a.body 1).params.length = 2 ∧
      (a.body 1).synthetic.length = 2 ∧
    p.Consistent a := by
  obtain ⟨p, a, hp, ha, h⟩ := Program.exists_analyze
    "function f(x, x) { try { } catch (e) { with (e) { } } }" ⟨false, true⟩
    (fun _ a => (a.body 1).params.length == 2 && (a.body 1).synthetic.length == 2)
      (by decide +kernel)
  obtain ⟨hparams, hsynthetic⟩ := Bool.and_eq_true_iff.mp h
  exact ⟨p, a, hp, ha, beq_iff_eq.mp hparams, beq_iff_eq.mp hsynthetic,
    Program.consistent_of_analyze hp ha⟩

end ScriptEngine
