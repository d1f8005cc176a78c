import Mathlib.Data.List.Nodup
import ScriptEngine.Proofs.Analysis.Scoping

/-!
# Growth of the tables

Resolution fills the tables from left to right.  What it has noted once stays, except that a body
may come to use more variables, that the script comes to have more global names, and that the nodes
and bodies of a piece of syntax are those that the piece itself fills.

## Main definitions

* `Analysis.Extends` : tables agree with earlier ones on given nodes and bodies.
* `Analysis.Sound` : the entries of the tables fit together.
* `Resolve.Post` : what holds after a computation that does not fail.

## Main statements

* `Environment.Valid.of_extends`, `Environment.Denotes.of_extends` : environments and what names
  denote in them stay valid.
-/

namespace ScriptEngine

/-! ### Entries of the tables -/

namespace Analysis

variable (a : Analysis)

@[simp] theorem var_with_bodies (bodies : Array BodyInfo) (v : VariableId) :
    ({ a with bodies } : Analysis).var v = a.var v := rfl

theorem var_push_of_lt {v : VariableId} (h : v < a.vars.size) (x : Variable) :
    ({ a with vars := a.vars.push x } : Analysis).var v = a.var v := by
  unfold var
  simp only [Array.getElem?_push, if_neg (Nat.ne_of_lt h)]

@[simp] theorem var_push_self (x : Variable) :
    ({ a with vars := a.vars.push x } : Analysis).var a.vars.size = x := by
  unfold var
  simp

theorem var_modify_of_ne {v w : VariableId} (h : v ≠ w) (f : Variable → Variable) :
    ({ a with vars := a.vars.modify w f } : Analysis).var v = a.var v := by
  unfold var
  simp only [Array.getElem?_modify, if_neg h.symm]

theorem var_modify_self {v : VariableId} (h : v < a.vars.size) (f : Variable → Variable) :
    ({ a with vars := a.vars.modify v f } : Analysis).var v = f (a.var v) := by
  unfold var
  simp only [Array.getElem?_modify, if_pos, Array.getElem?_eq_getElem h]
  rfl

theorem body_modify_of_ne {i j : FunctionId} (h : i ≠ j) (f : BodyInfo → BodyInfo) :
    ({ a with bodies := a.bodies.modify j f } : Analysis).body i = a.body i := by
  unfold body
  simp only [Array.getElem?_modify, if_neg h.symm]

theorem body_modify_self {i : FunctionId} (h : i < a.bodies.size) (f : BodyInfo → BodyInfo) :
    ({ a with bodies := a.bodies.modify i f } : Analysis).body i = f (a.body i) := by
  unfold body
  simp only [Array.getElem?_modify, if_pos, Array.getElem?_eq_getElem h]
  rfl

theorem body_of_size_le {i : FunctionId} (h : a.bodies.size ≤ i) : a.body i = default := by
  unfold body
  rw [Array.getElem?_eq_none h]
  rfl

theorem body_modify_of_size_le {i : FunctionId} (h : a.bodies.size ≤ i) (j : FunctionId)
    (f : BodyInfo → BodyInfo) :
    ({ a with bodies := a.bodies.modify j f } : Analysis).body i = a.body i := by
  rw [a.body_of_size_le h, body_of_size_le]
  simpa using h

end Analysis

namespace NameTable

variable (t : NameTable)

theorem isSome_get? (x : String) : (t.get? x).isSome = t.contains x := by
  unfold get? contains
  rw [Option.isSome_map, Bool.eq_iff_iff, List.find?_isSome, List.any_eq_true]

theorem contains_iff {x : String} : t.contains x = true ↔ ∃ v, t.get? x = some v := by
  rw [← isSome_get?, Option.isSome_iff_exists]

theorem get?_eq_none {x : String} (h : ¬ t.contains x = true) : t.get? x = none := by
  rw [← isSome_get?, Bool.not_eq_true, Option.isSome_eq_false_iff, Option.isNone_iff_eq_none] at h
  exact h

/-- A new name denotes the variable that it is declared with. -/
theorem get?_insert {x : String} (h : ¬ t.contains x = true) (v : VariableId) (y : String) :
    (t.insert x v).get? y = if y = x then some v else t.get? y := by
  have hnone := t.get?_eq_none h
  unfold insert
  rw [if_neg h]
  unfold get? at hnone ⊢
  rw [List.find?_append, List.find?_singleton]
  split_ifs with hy hx hx
  · subst hx
    rw [Option.map_eq_none_iff] at hnone
    rw [hnone]
    rfl
  · exact absurd (beq_iff_eq.mp hy).symm hx
  · exact absurd (beq_iff_eq.mpr hx.symm) hy
  · rw [Option.or_none]

theorem contains_insert {x : String} (h : ¬ t.contains x = true) (v : VariableId) (y : String) :
    (t.insert x v).contains y = true ↔ t.contains y = true ∨ y = x := by
  rw [contains_iff, contains_iff, t.get?_insert h]
  split_ifs with hy
  · simp [hy]
  · simp [hy]

/-- Every name is there once and denotes the variable that it was declared with, and the variables
of later names are later ones. -/
structure Tidy (t : NameTable) : Prop where
  current : ∀ e ∈ t.entries, e.current = e.first
  names : (t.entries.map (·.name)).Nodup
  order : t.order.Pairwise (· < ·)

theorem tidy_empty : empty.Tidy :=
  ⟨List.forall_mem_nil _, List.nodup_nil, .nil⟩

namespace Tidy

variable {t}

theorem get? (h : t.Tidy) {e : NameEntry} (he : e ∈ t.entries) : t.get? e.name = some e.first := by
  unfold NameTable.get?
  cases hfind : t.entries.find? (·.name == e.name) with
  | none => exact absurd (List.find?_eq_none.mp hfind e he) (by simp)
  | some e' =>
    have hname : e'.name = e.name := by simpa using List.find?_some hfind
    obtain rfl := List.inj_on_of_nodup_map h.names (List.mem_of_find?_eq_some hfind) he hname
    exact congrArg some (h.current e' he)

/-- What a name denotes is listed. -/
theorem mem_order (h : t.Tidy) {x : String} {v : VariableId} (hx : t.get? x = some v) :
    v ∈ t.order := by
  obtain ⟨e, he, rfl⟩ := Option.map_eq_some_iff.mp hx
  have hmem := List.mem_of_find?_eq_some he
  rw [h.current e hmem]
  exact List.mem_map_of_mem hmem

/-- What is listed has a name. -/
theorem exists_get? (h : t.Tidy) {v : VariableId} (hv : v ∈ t.order) : ∃ x, t.get? x = some v := by
  obtain ⟨e, he, rfl⟩ := List.mem_map.mp hv
  exact ⟨e.name, h.get? he⟩

/-- A new name with a new variable. -/
theorem insert (h : t.Tidy) {x : String} (hx : ¬ t.contains x = true) {v : VariableId}
    (hv : ∀ w ∈ t.order, w < v) : (t.insert x v).Tidy := by
  have hnew : x ∉ t.entries.map (·.name) := by
    rintro hmem
    obtain ⟨e, he, rfl⟩ := List.mem_map.mp hmem
    exact hx (List.any_eq_true.mpr ⟨e, he, beq_self_eq_true _⟩)
  unfold NameTable.insert
  rw [if_neg hx]
  refine ⟨List.forall_mem_append.mpr ⟨h.current, List.forall_mem_singleton.mpr rfl⟩, ?_, ?_⟩
  · rw [List.map_append]
    exact List.Nodup.append h.names (List.nodup_singleton x) (List.disjoint_singleton.mpr hnew)
  · unfold NameTable.order
    rw [List.map_append]
    refine List.pairwise_append.mpr ⟨h.order, List.pairwise_singleton _ _, fun w hw u hu => ?_⟩
    obtain rfl := List.mem_singleton.mp hu
    exact hv w hw

end Tidy

end NameTable

/-! ### Growth -/

/-- A body keeps what it declares, and may come to have more variables of `catch` and `with` scopes
and more variables that nested functions use.  The script may also come to have more names. -/
structure BodyInfo.Grows (id : FunctionId) (b c : BodyInfo) : Prop where
  parent : c.parent = b.parent
  arguments : c.arguments = b.arguments
  selfBinding : c.selfBinding = b.selfBinding
  params : c.params = b.params
  synthetic : b.synthetic ⊆ c.synthetic
  closedOver : b.closedOver ⊆ c.closedOver
  declared : ∀ x v, b.declared.get? x = some v → c.declared.get? x = some v
  fixed : id ≠ 0 → c.declared = b.declared

namespace BodyInfo.Grows

variable {id : FunctionId} {b c d : BodyInfo}

theorem refl (id : FunctionId) (b : BodyInfo) : b.Grows id b :=
  ⟨rfl, rfl, rfl, rfl, fun _ h => h, fun _ h => h, fun _ _ h => h, fun _ => rfl⟩

theorem trans (h : b.Grows id c) (h' : c.Grows id d) : b.Grows id d where
  parent := h'.parent.trans h.parent
  arguments := h'.arguments.trans h.arguments
  selfBinding := h'.selfBinding.trans h.selfBinding
  params := h'.params.trans h.params
  synthetic := List.Subset.trans h.synthetic h'.synthetic
  closedOver := List.Subset.trans h.closedOver h'.closedOver
  declared x v hx := h'.declared x v (h.declared x v hx)
  fixed hid := (h'.fixed hid).trans (h.fixed hid)

end BodyInfo.Grows

namespace Analysis

/-- Tables agree with earlier ones on the variables that were there, on the nodes in `N` and, up to
growth, on the bodies in `F`. -/
structure Extends (N : NodeId → Prop) (F : FunctionId → Prop) (a b : Analysis) : Prop where
  size : a.vars.size ≤ b.vars.size
  var : ∀ v < a.vars.size, b.var v = a.var v
  bodies_size : b.bodies.size = a.bodies.size
  references_size : b.references.size = a.references.size
  withVariables_size : b.withVariables.size = a.withVariables.size
  references : ∀ n, N n → b.references[n]? = a.references[n]?
  withVariables : ∀ n, N n → b.withVariables[n]? = a.withVariables[n]?
  body : ∀ id, F id → (a.body id).Grows id (b.body id)

namespace Extends

variable {N N' : NodeId → Prop} {F F' : FunctionId → Prop} {a b c : Analysis}

theorem refl (N : NodeId → Prop) (F : FunctionId → Prop) (a : Analysis) : a.Extends N F a :=
  ⟨le_rfl, fun _ _ => rfl, rfl, rfl, rfl, fun _ _ => rfl, fun _ _ => rfl, fun _ _ => .refl _ _⟩

theorem trans (h : a.Extends N F b) (h' : b.Extends N F c) : a.Extends N F c where
  size := h.size.trans h'.size
  var v hv := (h'.var v (hv.trans_le h.size)).trans (h.var v hv)
  bodies_size := h'.bodies_size.trans h.bodies_size
  references_size := h'.references_size.trans h.references_size
  withVariables_size := h'.withVariables_size.trans h.withVariables_size
  references n hn := (h'.references n hn).trans (h.references n hn)
  withVariables n hn := (h'.withVariables n hn).trans (h.withVariables n hn)
  body id hid := (h.body id hid).trans (h'.body id hid)

theorem mono (h : a.Extends N F b) (hN : ∀ n, N' n → N n) (hF : ∀ id, F' id → F id) :
    a.Extends N' F' b :=
  { h with
    references := fun n hn => h.references n (hN n hn)
    withVariables := fun n hn => h.withVariables n (hN n hn)
    body := fun id hid => h.body id (hF id hid) }

theorem reference? (h : a.Extends N F b) {i : Identifier} (hi : N i.id) :
    b.reference? i = a.reference? i := by
  unfold Analysis.reference?
  rw [h.references _ hi]

theorem withVariable? (h : a.Extends N F b) {n : NodeId} (hn : N n) :
    b.withVariable? n = a.withVariable? n := by
  unfold Analysis.withVariable?
  rw [h.withVariables _ hn]

theorem captured (h : a.Extends N F b) {v : VariableId} (hv : v < a.vars.size)
    (hF : F (a.var v).body) (hc : a.Captured v) : b.Captured v := by
  unfold Captured
  rw [h.var v hv]
  exact fun hcap => (h.body _ hF).closedOver (hc hcap)

theorem entry (h : a.Extends N F b) {id : FunctionId} (hF : F id) {e : ScopeEntry}
    (he : e.Valid a id) : e.Valid b id where
  bound := he.bound.trans_le h.size
  kind := by rw [h.var _ he.bound, he.kind]
  owner := by rw [h.var _ he.bound, he.owner]
  synthetic := (h.body id hF).synthetic he.synthetic
  name x v hx := by
    subst hx
    rw [h.var v he.bound, he.name x v rfl]

end Extends

end Analysis

/-! ### What is noted -/

namespace Analysis

variable {a b c : Analysis} {S S' : VariableId → Prop} {M M' : String → Prop}

/-- Some condition holds of all variables that were captured between two tables, and another one of
all names that the script came to have. -/
structure Notes (a b : Analysis) (S : VariableId → Prop) (M : String → Prop) : Prop where
  captured : ∀ id, ∀ w ∈ (b.body id).closedOver, w ∈ (a.body id).closedOver ∨ S w
  declared : ∀ x, (b.body 0).declared.contains x = true →
    (a.body 0).declared.contains x = true ∨ M x

/-- Between two tables no variable was captured, and the script came to have no name. -/
structure Quiet (a b : Analysis) : Prop where
  closedOver : ∀ id, (b.body id).closedOver = (a.body id).closedOver
  declared : (b.body 0).declared = (a.body 0).declared

theorem Quiet.refl (a : Analysis) : a.Quiet a :=
  ⟨fun _ => rfl, rfl⟩

theorem Quiet.trans (h : a.Quiet b) (h' : b.Quiet c) : a.Quiet c :=
  ⟨fun id => (h'.closedOver id).trans (h.closedOver id), h'.declared.trans h.declared⟩

theorem quiet_setReference (a : Analysis) (n : NodeId) (v : VariableId) :
    a.Quiet { a with references := a.references.setIfInBounds n (some v) } :=
  ⟨fun _ => rfl, rfl⟩

theorem quiet_setWithVariable (a : Analysis) (n : NodeId) (v : VariableId) :
    a.Quiet { a with withVariables := a.withVariables.setIfInBounds n (some v) } :=
  ⟨fun _ => rfl, rfl⟩

theorem Quiet.notes (h : a.Quiet b) : a.Notes b S M :=
  ⟨fun id _ hw => .inl (h.closedOver id ▸ hw), fun _ hx => .inl (h.declared ▸ hx)⟩

namespace Notes

theorem refl (a : Analysis) : a.Notes a S M :=
  (Quiet.refl a).notes

theorem mono (h : a.Notes b S M) (hS : ∀ w, S w → S' w) (hM : ∀ x, M x → M' x) : a.Notes b S' M' :=
  ⟨fun id w hw => (h.captured id w hw).imp_right (hS w),
    fun x hx => (h.declared x hx).imp_right (hM x)⟩

theorem trans (h : a.Notes b S M) (h' : b.Notes c S M) : a.Notes c S M := by
  refine ⟨fun id w hw => ?_, fun x hx => ?_⟩
  · rcases h'.captured id w hw with hw | hw
    · exact h.captured id w hw
    · exact .inr hw
  · rcases h'.declared x hx with hx | hx
    · exact h.declared x hx
    · exact .inr hx

end Notes

/-- A change of one body does not show in what it keeps. -/
theorem modifyBody_congr {α : Type} (g : BodyInfo → α) (a : Analysis) (i : FunctionId)
    {f : BodyInfo → BodyInfo} (hf : ∀ b, g (f b) = g b) (id : FunctionId) :
    g (Analysis.body { a with bodies := a.bodies.modify i f } id) = g (a.body id) := by
  rcases eq_or_ne id i with rfl | hne
  · by_cases hbound : id < a.bodies.size
    · rw [a.body_modify_self hbound, hf]
    · rw [a.body_modify_of_size_le (Nat.le_of_not_lt hbound)]
  · rw [a.body_modify_of_ne hne]

theorem quiet_modifyBody (a : Analysis) (i : FunctionId) {f : BodyInfo → BodyInfo}
    (hclosed : ∀ b, (f b).closedOver = b.closedOver)
    (hdeclared : ∀ b, (f b).declared = b.declared) :
    a.Quiet { a with bodies := a.bodies.modify i f } :=
  ⟨modifyBody_congr (·.closedOver) a i hclosed, modifyBody_congr (·.declared) a i hdeclared 0⟩

end Analysis

/-! ### Environments -/

namespace Environment

variable {a b : Analysis} {N : NodeId → Prop} {F : FunctionId → Prop} {env : Environment}

theorem Valid.current_mem (h : env.Valid a) : Resolve.current env ∈ env.bodies := by
  cases h <;> exact List.mem_cons_self

theorem Valid.bodies_le (h : env.Valid a) : ∀ id ∈ env.bodies, id ≤ Resolve.current env := by
  induction h with
  | script => simp [bodies, Resolve.current]
  | inside _ above _ _ _ _ ih =>
    intro id hid
    rcases List.mem_cons.mp hid with rfl | hid
    · exact le_rfl
    · exact (ih id hid).trans above.le

theorem Valid.bodies_lt_size (h : env.Valid a) : ∀ id ∈ env.bodies, id < a.bodies.size := by
  induction h with
  | script bound => simpa [bodies] using bound
  | inside bound _ _ _ _ _ ih =>
    intro id hid
    rcases List.mem_cons.mp hid with rfl | hid
    · exact bound
    · exact ih id hid

theorem Valid.of_extends (h : env.Valid a) (hab : a.Extends N F b) (hF : ∀ id ∈ env.bodies, F id) :
    env.Valid b := by
  induction h with
  | script bound valid =>
    exact .script (hab.bodies_size ▸ bound) fun e he =>
      hab.entry (hF 0 List.mem_cons_self) (valid e he)
  | @inside body entries env bound above parent arguments valid outer ih =>
    have hbody := hab.body body (hF body List.mem_cons_self)
    refine .inside (hab.bodies_size ▸ bound) above (hbody.parent.trans parent) ?_
      (fun e he => hab.entry (hF body List.mem_cons_self) (valid e he))
      (ih fun id hid => hF id (List.mem_cons_of_mem _ hid))
    rw [hbody.fixed (Nat.ne_of_gt (Nat.zero_lt_of_lt above))]
    exact arguments

/-- What a search has found stays. -/
theorem Valid.find_of_extends (h : env.Valid a) (hab : a.Extends N F b)
    (hF : ∀ id ∈ env.bodies, F id) {name : String} {outer : Bool}
    (hfound : (env.find a name outer).found.isSome) :
    env.find b name outer = env.find a name outer := by
  induction h generalizing outer with
  | script =>
    unfold find at hfound ⊢
    split at hfound
    · rfl
    · split at hfound
      · rename_i v hv
        rw [(hab.body 0 (hF 0 List.mem_cons_self)).declared name v hv]
      · simp [find] at hfound
  | @inside body entries env bound above parent arguments valid hvalid ih =>
    have hbody := hab.body body (hF body List.mem_cons_self)
    unfold find at hfound ⊢
    rw [hbody.fixed (Nat.ne_of_gt (Nat.zero_lt_of_lt above))]
    split at hfound
    · rfl
    · split at hfound
      · rename_i hv
        dsimp only at hv ⊢
        rw [hv]
      · rename_i hv
        dsimp only at hv ⊢
        rw [hv, ih (fun id hid => hF id (List.mem_cons_of_mem _ hid)) hfound]

theorem Guards.of_extends {name : String} {target v : VariableId} {withs : List VariableId}
    (h : env.Guards a name target withs v) (hab : a.Extends N F b)
    (hw : ∀ w ∈ withs, w < a.vars.size ∧ F (a.var w).body) : env.Guards b name target withs v where
  bound := h.bound.trans_le hab.size
  var := by
    have hchain : (withs.map fun w => (w, (b.var w).body)) = withs.map fun w =>
        (w, (a.var w).body) :=
      List.map_congr_left fun w hmem => by rw [hab.var w (hw w hmem).1]
    rw [hab.var v h.bound, h.var, hchain]
  captured w hmem := by
    rw [hab.var w (hw w hmem).1]
    exact fun hne => hab.captured (hw w hmem).1 (hw w hmem).2 (h.captured w hmem hne)

end Environment

/-! ### Sound tables -/

/-- What holds of a variable as long as captured variables have no fields. -/
structure Variable.Sound (x : Variable) : Prop where
  valueType : x.valueType = .unset ∨ x.valueType = .object
  immutable : x.immutable = true → x.valueType = .object
  field : x.field = none
  arguments : x.kind = .arguments → x.name = "arguments"

namespace Analysis

/-- The variables and bodies that a variable refers to are among those of the tables. -/
structure Covers (a : Analysis) (x : Variable) : Prop where
  owner : x.body < a.bodies.size
  fallback : ∀ v, x.fallback = some v → v < a.vars.size
  withChain : ∀ w ∈ x.withChain, w.1 < a.vars.size ∧ w.2 < a.bodies.size

/-- The variables of a body are among those of the tables, and none is noted twice. -/
structure BodySound (a : Analysis) (id : FunctionId) (b : BodyInfo) :
    Prop where
  number : id < a.bodies.size → b.id = id
  tidy : b.declared.Tidy
  declared : ∀ x v, b.declared.get? x = some v →
    a.Owns id (declarableKinds id) v ∧ (a.var v).name = x
  closedOver : ∀ v ∈ b.closedOver, a.Owns id [.parameter, .local] v
  closedOver_nodup : b.closedOver.Nodup
  synthetic : ∀ v ∈ b.synthetic, a.Owns id [.local] v
  synthetic_nodup : b.synthetic.Nodup
  apart : ∀ v ∈ b.synthetic, ∀ x, b.declared.get? x ≠ some v
  arguments : ∀ v, b.arguments = some v → a.Owns id [.arguments] v
  selfBinding : ∀ v, b.selfBinding = some v → a.Owns id [.local] v ∧ (a.var v).valueType = .object
  parent : ∀ q, b.parent = some q → q < id
  layout : b.layout = none

/-- The entries of the tables fit together. -/
structure Sound (a : Analysis) : Prop where
  var : ∀ v < a.vars.size, (a.var v).Sound
  covers : ∀ v < a.vars.size, a.Covers (a.var v)
  references : ∀ (n : NodeId) v, a.references[n]? = some (some v) → v < a.vars.size
  withVariables : ∀ (n : NodeId) v, a.withVariables[n]? = some (some v) → v < a.vars.size
  body : ∀ id, a.BodySound id (a.body id)

variable {a b : Analysis} {N : NodeId → Prop} {F : FunctionId → Prop} {id : FunctionId}
  {kinds : List VariableKind} {v : VariableId}

theorem Owns.of_extends (h : a.Owns id kinds v) (hab : a.Extends N F b) : b.Owns id kinds v where
  bound := h.bound.trans_le hab.size
  body := by rw [hab.var v h.bound, h.body]
  kind := by rw [hab.var v h.bound]; exact h.kind

theorem Owns.mono {kinds' : List VariableKind} (h : a.Owns id kinds v) (hk : kinds ⊆ kinds') :
    a.Owns id kinds' v :=
  { h with kind := hk h.kind }

theorem NamesFunction.of_extends {n : NodeId} (h : a.NamesFunction id n) (hab : a.Extends N F b)
    (hn : N n) : b.NamesFunction id n := by
  obtain ⟨v, hv, howns, hholds⟩ := h
  exact ⟨v, (hab.references n hn).trans hv, howns.of_extends hab, by rwa [hab.var v howns.bound]⟩

theorem Covers.of_extends {x : Variable} (h : a.Covers x) (hab : a.Extends N F b) : b.Covers x where
  owner := hab.bodies_size ▸ h.owner
  fallback v hv := (h.fallback v hv).trans_le hab.size
  withChain w hw := ⟨(h.withChain w hw).1.trans_le hab.size, hab.bodies_size ▸ (h.withChain w hw).2⟩

theorem BodySound.of_extends {info : BodyInfo} (h : a.BodySound id info) (hab : a.Extends N F b) :
    b.BodySound id info where
  number hid := h.number (hab.bodies_size ▸ hid)
  tidy := h.tidy
  declared x v hv := by
    obtain ⟨howns, hname⟩ := h.declared x v hv
    exact ⟨howns.of_extends hab, by rw [hab.var v howns.bound, hname]⟩
  closedOver v hv := (h.closedOver v hv).of_extends hab
  closedOver_nodup := h.closedOver_nodup
  synthetic v hv := (h.synthetic v hv).of_extends hab
  synthetic_nodup := h.synthetic_nodup
  apart := h.apart
  arguments v hv := (h.arguments v hv).of_extends hab
  selfBinding v hv := by
    obtain ⟨howns, htype⟩ := h.selfBinding v hv
    exact ⟨howns.of_extends hab, by rw [hab.var v howns.bound, htype]⟩
  parent := h.parent
  layout := h.layout

/-- The variables that a body declares are older than the next one. -/
theorem BodySound.order_lt {info : BodyInfo} (h : a.BodySound id info) :
    ∀ v ∈ info.declared.order, v < a.vars.size := by
  intro v hv
  obtain ⟨x, hx⟩ := h.tidy.exists_get? hv
  exact (h.declared x v hx).1.bound

end Analysis

/-! ### What a search finds -/

section

variable {a b : Analysis} {N : NodeId → Prop} {F : FunctionId → Prop} {env : Environment}
  {name : String} {withs : List VariableId}

theorem mem_of_searchEntries {entries : List ScopeEntry} {v : VariableId}
    (h : searchEntries name entries = (some v, withs)) : .catch_ name v ∈ entries := by
  induction entries generalizing withs with
  | nil => cases h
  | cons e rest ih =>
    cases e with
    | catch_ bound w =>
      rw [searchEntries] at h
      split at h
      · rename_i hname
        cases h
        rw [beq_iff_eq.mp hname]
        exact List.mem_cons_self
      · exact List.mem_cons_of_mem _ (ih h)
    | with_ w =>
      rw [searchEntries] at h
      obtain ⟨hfound, -⟩ := Prod.mk.inj h
      exact List.mem_cons_of_mem _ (ih (Prod.ext hfound rfl))

theorem holders_of_searchEntries {entries : List ScopeEntry} {found : Option VariableId}
    (h : searchEntries name entries = (found, withs)) : ∀ w ∈ withs, .with_ w ∈ entries := by
  induction entries generalizing withs with
  | nil =>
    cases h
    exact fun w hw => absurd hw List.not_mem_nil
  | cons e rest ih =>
    cases e with
    | catch_ bound v =>
      rw [searchEntries] at h
      split at h
      · cases h
        exact fun w hw => absurd hw List.not_mem_nil
      · exact fun w hw => List.mem_cons_of_mem _ (ih h w hw)
    | with_ v =>
      rw [searchEntries] at h
      cases h
      intro w hw
      rcases List.mem_cons.mp hw with rfl | hw
      · exact List.mem_cons_self
      · exact List.mem_cons_of_mem _ (ih rfl w hw)

theorem ScopeEntry.Valid.owns {body : FunctionId} {e : ScopeEntry} (h : e.Valid a body) :
    a.Owns body [.local] e.holder :=
  ⟨h.bound, h.owner, List.mem_singleton.mpr h.kind⟩

/-- A search finds a variable of one of the bodies around, its own one if it stays inside. -/
theorem Environment.Valid.of_find (h : env.Valid a) (hs : a.Sound) {outer : Bool}
    {found : Option (VariableId × Bool)} (hfind : env.find a name outer = ⟨found, withs⟩) :
    (∀ v o, found = some (v, o) → (a.var v).name = name ∧
      (∃ id ∈ env.bodies, a.Owns id (.local :: declarableKinds id) v) ∧
      (o = false → outer = false ∧ (a.var v).body = Resolve.current env) ∧
      (o = true → outer = true ∨ (a.var v).body ≠ Resolve.current env)) ∧
    ∀ w ∈ withs, ∃ id ∈ env.bodies, a.Owns id [.local] w := by
  -- what the scopes and the names of the innermost body give, for both kinds of environments
  have hcatch {body : FunctionId} {entries : List ScopeEntry}
      (valid : ∀ e ∈ entries, e.Valid a body)
      {v : VariableId} {withs : List VariableId}
      (hsearch : searchEntries name entries = (some v, withs)) :
      (a.var v).name = name ∧ a.Owns body (.local :: declarableKinds body) v := by
    have hvalid := valid _ (mem_of_searchEntries hsearch)
    exact ⟨hvalid.name name v rfl, hvalid.owns.mono (by simp)⟩
  have hwith {body : FunctionId} {entries : List ScopeEntry} (valid : ∀ e ∈ entries, e.Valid a body)
      {found : Option VariableId} {withs : List VariableId}
      (hsearch : searchEntries name entries = (found, withs)) :
      ∀ w ∈ withs, a.Owns body [.local] w :=
    fun w hw => (valid _ (holders_of_searchEntries hsearch w hw)).owns
  have hdeclared {body : FunctionId} {v : VariableId}
      (hv : (a.body body).declared.get? name = some v) :
      (a.var v).name = name ∧ a.Owns body (.local :: declarableKinds body) v :=
    ⟨((hs.body body).declared name v hv).2, ((hs.body body).declared name v hv).1.mono (by simp)⟩
  induction h generalizing outer found withs with
  | script bound valid =>
    unfold find at hfind
    split at hfind
    · rename_i v' withs' hsearch
      cases hfind
      refine ⟨?_, fun w hw => ⟨0, List.mem_cons_self, hwith valid hsearch w hw⟩⟩
      rintro v o ⟨⟩
      obtain ⟨hname, howns⟩ := hcatch valid hsearch
      exact ⟨hname, ⟨0, List.mem_cons_self, howns⟩, fun ho => ⟨ho, howns.body⟩, .inl⟩
    · rename_i withs' hsearch
      have hw := hwith valid hsearch
      split at hfind
      · rename_i v' hv
        cases hfind
        refine ⟨?_, fun w hmem => ⟨0, List.mem_cons_self, hw w hmem⟩⟩
        rintro v o ⟨⟩
        obtain ⟨hname, howns⟩ := hdeclared hv
        exact ⟨hname, ⟨0, List.mem_cons_self, howns⟩, fun ho => ⟨ho, howns.body⟩, .inl⟩
      · cases hfind
        refine ⟨fun _ _ hvo => (nomatch hvo), fun w hmem => ⟨0, List.mem_cons_self, hw w ?_⟩⟩
        simpa [find] using hmem
  | @inside body entries env bound above parent arguments valid hvalid ih =>
    unfold find at hfind
    split at hfind
    · rename_i v' withs' hsearch
      cases hfind
      refine ⟨?_, fun w hw => ⟨body, List.mem_cons_self, hwith valid hsearch w hw⟩⟩
      rintro v o ⟨⟩
      obtain ⟨hname, howns⟩ := hcatch valid hsearch
      exact ⟨hname, ⟨body, List.mem_cons_self, howns⟩, fun ho => ⟨ho, howns.body⟩, .inl⟩
    · rename_i withs' hsearch
      have hw := hwith valid hsearch
      split at hfind
      · rename_i v' hv
        cases hfind
        refine ⟨?_, fun w hmem => ⟨body, List.mem_cons_self, hw w hmem⟩⟩
        rintro v o ⟨⟩
        obtain ⟨hname, howns⟩ := hdeclared hv
        exact ⟨hname, ⟨body, List.mem_cons_self, howns⟩, fun ho => ⟨ho, howns.body⟩, .inl⟩
      · cases hfind
        obtain ⟨hmore, hmoreWiths⟩ := @ih _ true _ rfl
        refine ⟨fun v o hvo => ?_, fun w hmem => ?_⟩
        · obtain ⟨hname, ⟨id, hid, howns⟩, ho⟩ := hmore v o hvo
          refine ⟨hname, ⟨id, List.mem_cons_of_mem _ hid, howns⟩,
            fun h => absurd (ho.1 h).1 (by simp), fun _ => .inr ?_⟩
          rw [howns.body]
          exact Nat.ne_of_lt ((hvalid.bodies_le id hid).trans_lt above)
        · rcases List.mem_append.mp hmem with hmem | hmem
          · exact ⟨body, List.mem_cons_self, hw w hmem⟩
          · obtain ⟨id, hid, howns⟩ := hmoreWiths w hmem
            exact ⟨id, List.mem_cons_of_mem _ hid, howns⟩

/-- Every function has its own `arguments`, so that a search for it does not leave the body. -/
theorem Environment.Valid.find_arguments (h : env.Valid a) {outer o : Bool} {v : VariableId}
    (hfind : env.find a "arguments" outer = ⟨some (v, o), withs⟩) : o = outer := by
  cases h with
  | script =>
    unfold find at hfind
    split at hfind
    · cases hfind
      rfl
    · split at hfind <;> cases hfind
      rfl
  | inside _ _ _ arguments _ _ =>
    unfold find at hfind
    split at hfind
    · cases hfind
      rfl
    · split at hfind
      · cases hfind
        rfl
      · rename_i hnone
        rw [← NameTable.isSome_get?] at arguments
        rw [hnone] at arguments
        cases arguments

theorem Environment.Denotes.of_extends {v : VariableId} (h : env.Denotes a name v)
    (hvalid : env.Valid a) (hs : a.Sound) (hab : a.Extends N F b) (hF : ∀ id ∈ env.bodies, F id) :
    env.Denotes b name v := by
  obtain ⟨target, outer, withs, hfind, hcaptured, hv⟩ := h
  obtain ⟨hfound, hwiths⟩ := hvalid.of_find hs hfind
  obtain ⟨-, ⟨id, hid, howns⟩, -⟩ := hfound target outer rfl
  refine ⟨target, outer, withs, ?_, fun ho => ?_, hv.imp_right fun ⟨hne, hguards⟩ => ⟨hne, ?_⟩⟩
  · rw [hvalid.find_of_extends hab hF (by rw [hfind]; rfl), hfind]
  · exact hab.captured howns.bound (howns.body ▸ hF id hid) (hcaptured ho)
  · refine hguards.of_extends hab fun w hw => ?_
    obtain ⟨id, hid, howns⟩ := hwiths w hw
    exact ⟨howns.bound, howns.body ▸ hF id hid⟩

end

/-! ### Computations -/

namespace Resolve

variable {α β : Type}

/-- What `declareBody` declares after the parameters and `arguments`. -/
def declareLocals (f : Func) : Resolve Unit := do
  declareVariables f.id .local (declaredNames f.body)
  declareFunctions f.id .local (bodyFunctions f.body)
  match f.isExpression, f.identifier? with
  | true, some name => declareSelf f.id name
  | _, _ => pure ()

/-- What holds of the result and of the tables after a computation, unless it fails. -/
def Post (x : Resolve α) (a : Analysis) (Q : α → Analysis → Prop) : Prop :=
  ∀ n r s, x.run ⟨a, n⟩ = .ok (r, s) → Q r s.analysis

namespace Post

variable {x : Resolve α} {a : Analysis} {P Q : α → Analysis → Prop} {R : β → Analysis → Prop}

theorem mono (h : x.Post a P) (hPQ : ∀ r b, P r b → Q r b) : x.Post a Q :=
  fun n r s hrun => hPQ r _ (h n r s hrun)

theorem and (h : x.Post a P) (h' : x.Post a Q) : x.Post a fun r b => P r b ∧ Q r b :=
  fun n r s hrun => ⟨h n r s hrun, h' n r s hrun⟩

theorem pure {r : α} (h : Q r a) : Post (pure r : Resolve α) a Q := by
  intro n r' s hrun
  cases hrun
  exact h

theorem throw (e : StaticError) : Post (throw e : Resolve α) a Q := by
  intro n r s hrun
  cases hrun

theorem bind {f : α → Resolve β} (h : x.Post a P) (hf : ∀ r b, P r b → (f r).Post b R) :
    (x >>= f).Post a R := by
  intro n r s hrun
  rw [StateT.run_bind] at hrun
  cases hx : x.run ⟨a, n⟩ with
  | error e =>
    rw [hx] at hrun
    cases hrun
  | ok p =>
    obtain ⟨r', s'⟩ := p
    rw [hx] at hrun
    exact hf r' s'.analysis (h n r' s' hx) s'.madeUp r s hrun

theorem tables : Post tables a fun r b => r = a ∧ b = a := by
  intro n r s hrun
  cases hrun
  exact ⟨rfl, rfl⟩

theorem modifyTables (f : Analysis → Analysis) : Post (modifyTables f) a fun _ b => b = f a := by
  intro n r s hrun
  cases hrun
  rfl

theorem freshNumber : Post freshNumber a fun _ b => b = a := by
  intro n r s hrun
  cases hrun
  rfl

theorem addVariable (v : Variable) : Post (addVariable v) a fun r b =>
    r = a.vars.size ∧ b = { a with vars := a.vars.push v } := by
  intro n r s hrun
  cases hrun
  exact ⟨rfl, rfl⟩

end Post

end Resolve

end ScriptEngine
