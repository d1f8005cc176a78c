import ScriptEngine.Proofs.Analysis.Declaration

/-!
# Parameters

A function has a variable for each of its parameters, in order.  A name that several of them share
has one variable, which knows the last position of the name: each later position replaces the one
before.  What the body declares besides does not change this.

## Main definitions

* `Analysis.Parameters` : the tables while a body has the variables of some parameters.

## Main statements

* `Analysis.Parameters.declareBody` : a body has the variables of all its parameters.
-/

namespace ScriptEngine

namespace Analysis

/-- The tables while a body has the variables of some parameters: they are among those that it
declares. -/
structure Parameters (id : FunctionId) (ps : List Identifier) (a : Analysis) : Prop where
  bound : id < a.bodies.size
  declared : ∀ x v, (a.body id).declared.get? x = some v → v < a.vars.size ∧ (a.var v).name = x
  takes : a.Takes id ps

variable {a b : Analysis} {id : FunctionId} {ps : List Identifier}

theorem Takes.exists_get? (h : a.Takes id ps) {p : Identifier} (hp : p ∈ ps) :
    ∃ v, (a.body id).declared.get? p.name = some v := by
  have hmem : (a.body id).declared.get? p.name ∈ (a.body id).params.map some :=
    h.params ▸ List.mem_map_of_mem hp
  obtain ⟨v, -, hv⟩ := List.mem_map.mp hmem
  exact ⟨v, hv.symm⟩

theorem Takes.exists_of_mem (h : a.Takes id ps) {v : VariableId}
    (hv : v ∈ (a.body id).params) : ∃ i ∈ ps, (a.body id).declared.get? i.name = some v :=
  List.mem_map.mp (h.params ▸ List.mem_map_of_mem hv)

/-- The names that a body has got and the positions that their variables know stay. -/
theorem Takes.steady (h : a.Takes id ps) (hparams : (b.body id).params = (a.body id).params)
    (hget : ∀ x v, (a.body id).declared.get? x = some v →
      (b.body id).declared.get? x = some v ∧
        (b.var v).index = (a.var v).index) : b.Takes id ps := by
  have hsame {p : Identifier} (hp : p ∈ ps) :
      (b.body id).declared.get? p.name = (a.body id).declared.get? p.name := by
    obtain ⟨v, hv⟩ := h.exists_get? hp
    rw [hv, (hget p.name v hv).1]
  refine ⟨?_, fun i p v hp hv hlast => ?_⟩
  · rw [hparams, h.params]
    exact List.map_congr_left fun p hp => (hsame hp).symm
  · rw [hsame (List.mem_of_getElem? hp)] at hv
    rw [(hget p.name v hv).2]
    exact h.index i p v hp hv hlast

namespace Parameters

/-! ### Steps -/

theorem declare (h : a.Parameters id ps) {x : String}
    (hx : ¬ (a.body id).declared.contains x = true) (kind : VariableKind) :
    (a.declare id x kind).Parameters id ps := by
  have hgrowth := a.extends_declare id x kind
  have hbody : (a.declare id x kind).body id =
      { a.body id with declared := (a.body id).declared.insert x a.vars.size } :=
        a.declare_body_self h.bound
  have hget (y : String) : ((a.declare id x kind).body id).declared.get? y =
      if y = x then some a.vars.size else (a.body id).declared.get? y := by
    rw [hbody]
    exact NameTable.get?_insert _ hx _ _
  refine ⟨hgrowth.bodies_size ▸ h.bound, fun y v hv => ?_, h.takes.steady ?_ fun y v hv => ⟨?_, ?_⟩⟩
  · rw [hget] at hv
    split_ifs at hv with hy
    · cases hv
      exact ⟨by simp [Analysis.declare], by rw [declare_var_self, hy]; rfl⟩
    · obtain ⟨hlt, hname⟩ := h.declared y v hv
      exact ⟨hlt.trans_le hgrowth.size, by rw [hgrowth.var v hlt, hname]⟩
  · rw [hbody]
  · rw [hget, if_neg, hv]
    rintro rfl
    exact hx ((NameTable.contains_iff _).mpr ⟨v, hv⟩)
  · rw [hgrowth.var v (h.declared y v hv).1]

/-- A change of a variable that keeps its name and its position. -/
theorem modifyVariable (h : a.Parameters id ps) (w : VariableId) {f : Variable → Variable}
    (hf : ∀ x, (f x).name = x.name ∧ (f x).index = x.index) :
    Analysis.Parameters id ps { a with vars := a.vars.modify w f } := by
  have hvar {v : VariableId} (hv : v < a.vars.size) :
      (Analysis.var { a with vars := a.vars.modify w f } v).name = (a.var v).name ∧
        (Analysis.var { a with vars := a.vars.modify w f } v).index = (a.var v).index := by
    rcases eq_or_ne v w with rfl | hne
    · rw [a.var_modify_self hv]
      exact hf _
    · rw [a.var_modify_of_ne hne]
      exact ⟨rfl, rfl⟩
  refine ⟨h.bound, fun x v hv => ?_, h.takes.steady rfl fun x v hv =>
    ⟨hv, (hvar (h.declared x v hv).1).2⟩⟩
  obtain ⟨hlt, hname⟩ := h.declared x v hv
  exact ⟨by simpa using hlt, (hvar hlt).1.trans hname⟩

/-- A change of the body that keeps its names and its parameters. -/
theorem modifyBody (h : a.Parameters id ps) {f : BodyInfo → BodyInfo}
    (hf : ∀ b, (f b).declared = b.declared ∧ (f b).params = b.params) :
    Analysis.Parameters id ps { a with bodies := a.bodies.modify id f } := by
  have hbody := a.body_modify_self h.bound f
  have hdeclared : (Analysis.body { a with bodies := a.bodies.modify id f } id).declared =
      (a.body id).declared := by rw [hbody, (hf _).1]
  refine ⟨by simpa using h.bound, ?_, h.takes.steady ?_ ?_⟩
  · rw [hdeclared]
    exact h.declared
  · rw [hbody, (hf _).2]
  · rw [hdeclared]
    exact fun x v hv => ⟨hv, rfl⟩

theorem setReference (h : a.Parameters id ps) (n : NodeId) (v : VariableId) :
    Analysis.Parameters id ps { a with references := a.references.setIfInBounds n (some v) } :=
  ⟨h.bound, h.declared, h.takes.params, h.takes.index⟩

/-- The next parameter, with the position that follows. -/
theorem bind (h : a.Parameters id ps) {p : Identifier} {v : VariableId}
    (hv : (a.body id).declared.get? p.name = some v) :
    Analysis.Parameters id (ps ++ [p])
      { a with
        vars := a.vars.modify v fun x => { x with index := some ps.length }
        bodies := a.bodies.modify id fun b => { b with params := b.params ++ [v] } } := by
  obtain ⟨hlt, hname⟩ := h.declared p.name v hv
  have hself := a.var_modify_self hlt fun x => { x with index := some ps.length }
  have hother {w : VariableId} (hw : w ≠ v) :=
    a.var_modify_of_ne hw fun x => { x with index := some ps.length }
  have hbody := a.body_modify_self h.bound fun b => { b with params := b.params ++ [v] }
  refine ⟨by simpa using h.bound, fun x w hw => ?_, ⟨?_, fun i q w hq hw hlast => ?_⟩⟩
  · change (Analysis.body { a with bodies := _ } id).declared.get? x = some w at hw
    rw [hbody] at hw
    obtain ⟨hlt', hname'⟩ := h.declared x w hw
    refine ⟨by simpa using hlt', ?_⟩
    change (Analysis.var { a with vars := _ } w).name = x
    rcases eq_or_ne w v with rfl | hne
    · rw [hself]
      exact hname'
    · rw [hother hne]
      exact hname'
  · change (Analysis.body { a with bodies := _ } id).params.map some =
      (ps ++ [p]).map fun q => (Analysis.body { a with bodies := _ } id).declared.get? q.name
    rw [hbody, List.map_append, List.map_append, h.takes.params]
    simp only [List.map_cons, List.map_nil, hv]
  · change (Analysis.body { a with bodies := _ } id).declared.get? q.name = some w at hw
    rw [hbody] at hw
    change (Analysis.var { a with vars := _ } w).index = some i
    rcases Nat.lt_or_ge i ps.length with hi | hi
    · -- an earlier position counts only if the new parameter has another name
      rw [List.getElem?_append_left hi] at hq
      have hne : p.name ≠ q.name := hlast ps.length p hi (by simp)
      have hw' : w ≠ v := by
        rintro rfl
        exact hne (hname.symm.trans (h.declared q.name w hw).2)
      rw [hother hw']
      refine h.takes.index i q w hq hw fun j r hij hr => hlast j r hij ?_
      rw [List.getElem?_append_left (List.getElem?_eq_some_iff.mp hr).1]
      exact hr
    · have hlen := (List.getElem?_eq_some_iff.mp hq).1
      rw [List.length_append, List.length_singleton] at hlen
      obtain rfl := Nat.le_antisymm (Nat.le_of_lt_succ hlen) hi
      rw [List.getElem?_concat_length] at hq
      cases hq
      rw [hv] at hw
      cases hw
      rw [hself]

/-! ### Declarations -/

theorem declareOnce (h : a.Parameters id ps) (x : String) (kind : VariableKind) :
    (Resolve.declareOnce id x kind).Post a fun v b =>
      b.Parameters id ps ∧ (b.body id).declared.get? x = some v := by
  unfold Resolve.declareOnce
  refine .bind .tables ?_
  rintro _ a ⟨rfl, rfl⟩
  split
  · rename_i v hv
    exact .pure ⟨h, hv⟩
  · rename_i hv
    have hnone : ¬ (a.body id).declared.contains x = true := by
      rw [← NameTable.isSome_get?, hv]
      simp
    refine .mono (Resolve.post_declare id x kind) ?_
    rintro _ _ ⟨rfl, rfl⟩
    refine ⟨h.declare hnone kind, ?_⟩
    rw [declare_body_self h.bound]
    exact (NameTable.get?_insert _ hnone _ _).trans (if_pos rfl)

theorem declareVariables (h : a.Parameters id ps) (kind : VariableKind) (xs : List String) :
    (Resolve.declareVariables id kind xs).Post a fun _ b => b.Parameters id ps := by
  induction xs generalizing a with
  | nil => exact .pure h
  | cons x xs ih => exact .bind (h.declareOnce x kind) fun _ b hb => ih hb.1

theorem declareFunctions (h : a.Parameters id ps) (kind : VariableKind) (fs : List Func) :
    (Resolve.declareFunctions id kind fs).Post a fun _ b => b.Parameters id ps := by
  induction fs generalizing a with
  | nil => exact .pure h
  | cons f fs ih =>
    unfold Resolve.declareFunctions
    refine .bind (h.declareOnce f.name kind) ?_
    rintro v b ⟨hb, -⟩
    split
    · refine .bind (.modifyTables _) ?_
      rintro _ _ rfl
      refine .bind (.modifyTables _) ?_
      rintro _ _ rfl
      have hhoisted := hb.modifyVariable v (f := fun x => { x with hoisted := true })
          fun x => ⟨rfl, rfl⟩
      exact ih (hhoisted.setReference _ v)
    · exact ih hb

theorem declareSelf (h : a.Parameters id ps) (i : Identifier) :
    (Resolve.declareSelf id i).Post a fun _ b => b.Parameters id ps := by
  unfold Resolve.declareSelf
  refine .bind .tables ?_
  rintro _ a ⟨rfl, rfl⟩
  split
  · rename_i hnone
    refine .bind (Resolve.post_declare id i.name .local) ?_
    rintro v _ ⟨-, rfl⟩
    refine .bind (.modifyTables _) ?_
    rintro _ _ rfl
    refine .bind (.modifyTables _) ?_
    rintro _ _ rfl
    refine .mono (.modifyTables _) ?_
    rintro _ _ rfl
    have hvariable := (h.declare (by simpa using hnone) .local).modifyVariable v
      (f := fun x => { x with valueType := .object, immutable := true }) fun x => ⟨rfl, rfl⟩
    have hbody := hvariable.modifyBody (f := fun b => { b with selfBinding := some v })
        fun b => ⟨rfl, rfl⟩
    exact hbody.setReference i.id v
  · exact .pure h

theorem declareParameters (h : a.Parameters id ps) (qs : List Identifier) :
    (Resolve.declareParameters id ps.length qs).Post a fun _ b => b.Parameters id (ps ++ qs) := by
  induction qs generalizing a ps with
  | nil => exact .pure (by rwa [List.append_nil])
  | cons q qs ih =>
    unfold Resolve.declareParameters
    refine .bind (h.declareOnce q.name .parameter) ?_
    rintro v b ⟨hb, hv⟩
    refine .bind (.modifyTables _) ?_
    rintro _ _ rfl
    refine .bind (.modifyTables _) ?_
    rintro _ _ rfl
    refine .bind (.modifyTables _) ?_
    rintro _ _ rfl
    have hrest := ih ((hb.bind hv).setReference q.id v)
    rwa [List.length_append, List.length_singleton, List.append_assoc] at hrest

/-- All that a function binds in its body is declared, and the body has the variables of the
parameters. -/
theorem declareBody {f : Func} (h : a.Parameters f.id []) :
    (Resolve.declareBody f).Post a fun _ b => b.Parameters f.id f.params := by
  unfold Resolve.declareBody
  refine .bind (h.declareParameters f.params) fun _ b hb => ?_
  have hrest {c : Analysis} (hc : c.Parameters f.id f.params) :
      (Resolve.declareLocals f).Post c fun _ d => d.Parameters f.id f.params := by
    refine .bind (hc.declareVariables .local _) fun _ d hd => ?_
    refine .bind (hd.declareFunctions .local _) fun _ e he => ?_
    split
    · exact he.declareSelf _
    · exact .pure he
  refine .bind .tables ?_
  rintro _ b ⟨rfl, rfl⟩
  dsimp only
  split
  · rename_i hnone
    refine .bind (Resolve.post_declare f.id "arguments" .arguments) ?_
    rintro v _ ⟨-, rfl⟩
    refine .bind (.modifyTables _) ?_
    rintro _ _ rfl
    have hdeclare := hb.declare (by simpa using hnone) .arguments
    exact hrest (hdeclare.modifyBody (f := fun b => { b with arguments := some v })
      fun b => ⟨rfl, rfl⟩)
  · exact hrest hb

end Parameters

end Analysis

end ScriptEngine
