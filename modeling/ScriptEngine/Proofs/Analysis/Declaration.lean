import ScriptEngine.Proofs.Analysis.Tables

/-!
# Declarations

What single steps of resolution do to the tables: a name is resolved to what it denotes, and a body
declares what its function binds.

## Main definitions

* `Analysis.Advances` : the tables have grown and are sound again.
* `Analysis.declare` : the tables after a body has declared a name.
* `Analysis.Declaring` : the tables while a body declares its names.

## Main statements

* `Resolve.post_resolve` : a name is resolved to what it denotes.
* `Resolve.post_declareBody` : all that a function binds in its body is declared.
-/

namespace ScriptEngine

/-! ### Changes of the tables -/

/-- A change of a variable that keeps what the bodies rely on. -/
structure Variable.Keeps (x y : Variable) : Prop where
  name : y.name = x.name
  kind : y.kind = x.kind
  body : y.body = x.body
  valueType : x.valueType = .object → y.valueType = .object
  fallback : y.fallback = x.fallback
  withChain : y.withChain = x.withChain

namespace Analysis

variable {a : Analysis}

theorem extends_push (a : Analysis) (x : Variable) :
    a.Extends (fun _ => True) (fun _ => True) { a with vars := a.vars.push x } where
  size := by simp
  var v hv := a.var_push_of_lt hv x
  bodies_size := rfl
  references_size := rfl
  withVariables_size := rfl
  references _ _ := rfl
  withVariables _ _ := rfl
  body _ _ := .refl _ _

theorem Sound.push (h : a.Sound) {x : Variable} (hx : x.Sound) (hcovers : a.Covers x) :
    Sound { a with vars := a.vars.push x } := by
  have hgrowth := a.extends_push x
  have hvar {v : VariableId} (hv : v < (a.vars.push x).size) :
      v < a.vars.size ∧ Analysis.var { a with vars := a.vars.push x } v = a.var v ∨
        Analysis.var { a with vars := a.vars.push x } v = x := by
    rcases Nat.lt_or_ge v a.vars.size with hlt | hge
    · exact .inl ⟨hlt, a.var_push_of_lt hlt x⟩
    · rw [Array.size_push] at hv
      obtain rfl := Nat.le_antisymm (Nat.le_of_lt_succ hv) hge
      exact .inr (a.var_push_self x)
  refine
    { var := fun v hv => ?_
      covers := fun v hv => ?_
      references := fun n v hv => (h.references n v hv).trans_le hgrowth.size
      withVariables := fun n v hv => (h.withVariables n v hv).trans_le hgrowth.size
      body := fun id => (h.body id).of_extends hgrowth }
  · rcases hvar hv with ⟨hlt, heq⟩ | heq <;> rw [heq]
    · exact h.var v hlt
    · exact hx
  · rcases hvar hv with ⟨hlt, heq⟩ | heq <;> rw [heq]
    · exact (h.covers v hlt).of_extends hgrowth
    · exact hcovers.of_extends hgrowth

theorem extends_modifyBody (a : Analysis) {id : FunctionId} {f : BodyInfo → BodyInfo}
    {F : FunctionId → Prop} (h : F id → (a.body id).Grows id (f (a.body id))) :
    a.Extends (fun _ => True) F { a with bodies := a.bodies.modify id f } where
  size := le_rfl
  var _ _ := rfl
  bodies_size := by simp
  references_size := rfl
  withVariables_size := rfl
  references _ _ := rfl
  withVariables _ _ := rfl
  body j hj := by
    rcases eq_or_ne j id with rfl | hne
    · rcases Nat.lt_or_ge j a.bodies.size with hlt | hge
      · rw [a.body_modify_self hlt]
        exact h hj
      · rw [a.body_modify_of_size_le hge]
        exact .refl _ _
    · rw [a.body_modify_of_ne hne]
      exact .refl _ _

theorem Sound.modifyBody (h : a.Sound) {id : FunctionId} {f : BodyInfo → BodyInfo}
    (hf : a.BodySound id (f (a.body id))) :
    Sound { a with bodies := a.bodies.modify id f } where
  var := h.var
  covers v hv := (h.covers v hv).of_extends (a.extends_modifyBody (F := fun _ => False) nofun)
  references := h.references
  withVariables := h.withVariables
  body j := by
    rcases eq_or_ne j id with rfl | hne
    · rcases Nat.lt_or_ge j a.bodies.size with hlt | hge
      · rw [a.body_modify_self hlt]
        exact hf.of_extends (a.extends_modifyBody (F := fun _ => False) nofun)
      · rw [a.body_modify_of_size_le hge]
        exact (h.body j).of_extends (a.extends_modifyBody (F := fun _ => False) nofun)
    · rw [a.body_modify_of_ne hne]
      exact (h.body j).of_extends (a.extends_modifyBody (F := fun _ => False) nofun)

theorem extends_modifyVariable {base : Analysis} {N : NodeId → Prop} {F : FunctionId → Prop}
    (h : base.Extends N F a) {v : VariableId} (hv : base.vars.size ≤ v) (f : Variable → Variable) :
    base.Extends N F { a with vars := a.vars.modify v f } :=
  { h with
    size := by simpa using h.size
    var := fun w hw => by
      rw [a.var_modify_of_ne (Nat.ne_of_lt (hw.trans_le hv)), h.var w hw] }

theorem Sound.modifyVariable (h : a.Sound) {v : VariableId} (hv : v < a.vars.size)
    {f : Variable → Variable} (hf : (a.var v).Keeps (f (a.var v))) (hs : (f (a.var v)).Sound) :
    Sound { a with vars := a.vars.modify v f } := by
  have hkeeps (w : VariableId) :
      (a.var w).Keeps (({ a with vars := a.vars.modify v f } : Analysis).var w) := by
    rcases eq_or_ne w v with rfl | hne
    · rw [a.var_modify_self hv]
      exact hf
    · rw [a.var_modify_of_ne hne]
      exact ⟨rfl, rfl, rfl, id, rfl, rfl⟩
  have howns {id : FunctionId} {kinds : List VariableKind}
      {w : VariableId} (ho : a.Owns id kinds w) :
      Owns { a with vars := a.vars.modify v f } id kinds w :=
    ⟨by simpa using ho.bound, (hkeeps w).body.trans ho.body, (hkeeps w).kind ▸ ho.kind⟩
  have hsize : (a.vars.modify v f).size = a.vars.size := Array.size_modify
  refine ⟨fun w hw => ?_, fun w hw => ?_, fun n w hw => hsize.symm ▸ h.references n w hw,
    fun n w hw => hsize.symm ▸ h.withVariables n w hw, fun id => ?_⟩
  · rcases eq_or_ne w v with rfl | hne
    · rw [a.var_modify_self hv]
      exact hs
    · rw [a.var_modify_of_ne hne]
      exact h.var w (by simpa using hw)
  · have hcovers := h.covers w (hsize ▸ hw)
    refine ⟨?_, ?_, ?_⟩
    · rw [(hkeeps w).body]
      exact hcovers.owner
    · rw [(hkeeps w).fallback, hsize]
      exact hcovers.fallback
    · rw [(hkeeps w).withChain, hsize]
      exact hcovers.withChain
  · have hbody := h.body id
    exact
      { number := hbody.number
        tidy := hbody.tidy
        declared := fun x w hw => ⟨howns (hbody.declared x w hw).1,
          (hkeeps w).name.trans (hbody.declared x w hw).2⟩
        closedOver := fun w hw => howns (hbody.closedOver w hw)
        closedOver_nodup := hbody.closedOver_nodup
        synthetic := fun w hw => howns (hbody.synthetic w hw)
        synthetic_nodup := hbody.synthetic_nodup
        apart := hbody.apart
        arguments := fun w hw => howns (hbody.arguments w hw)
        selfBinding := fun w hw => ⟨howns (hbody.selfBinding w hw).1,
          (hkeeps w).valueType (hbody.selfBinding w hw).2⟩
        parent := hbody.parent
        layout := hbody.layout }

theorem extends_setReference (a : Analysis) (n : NodeId) (v : VariableId) :
    a.Extends (fun m => m ≠ n) (fun _ => True)
      { a with references := a.references.setIfInBounds n (some v) } where
  size := le_rfl
  var _ _ := rfl
  bodies_size := rfl
  references_size := by simp
  withVariables_size := rfl
  references m hm := by simp [Array.getElem?_setIfInBounds_ne hm.symm]
  withVariables _ _ := rfl
  body _ _ := .refl _ _

theorem extends_setWithVariable (a : Analysis) (n : NodeId) (v : VariableId) :
    a.Extends (fun m => m ≠ n) (fun _ => True)
      { a with withVariables := a.withVariables.setIfInBounds n (some v) } where
  size := le_rfl
  var _ _ := rfl
  bodies_size := rfl
  references_size := rfl
  withVariables_size := by simp
  references _ _ := rfl
  withVariables m hm := by simp [Array.getElem?_setIfInBounds_ne hm.symm]
  body _ _ := .refl _ _

theorem Sound.setReference (h : a.Sound) (n : NodeId) {v : VariableId} (hv : v < a.vars.size) :
    Sound { a with references := a.references.setIfInBounds n (some v) } where
  var := h.var
  covers w hw := (h.covers w hw).of_extends (a.extends_setReference n v)
  references m w hw := by
    rw [Array.getElem?_setIfInBounds] at hw
    split_ifs at hw
    · cases hw
      exact hv
    · exact h.references m w hw
  withVariables := h.withVariables
  body id := (h.body id).of_extends (a.extends_setReference n v)

theorem Sound.setWithVariable (h : a.Sound) (n : NodeId) {v : VariableId} (hv : v < a.vars.size) :
    Sound { a with withVariables := a.withVariables.setIfInBounds n (some v) } where
  var := h.var
  covers w hw := (h.covers w hw).of_extends (a.extends_setWithVariable n v)
  references := h.references
  withVariables m w hw := by
    rw [Array.getElem?_setIfInBounds] at hw
    split_ifs at hw
    · cases hw
      exact hv
    · exact h.withVariables m w hw
  body id := (h.body id).of_extends (a.extends_setWithVariable n v)

end Analysis

/-! ### Names -/

/-- A name that is bound nowhere becomes one of the script's. -/
theorem Environment.Valid.find_none {a : Analysis} {env : Environment} (h : env.Valid a)
    {name : String} {outer : Bool} {withs : List VariableId}
    (hfind : env.find a name outer = ⟨none, withs⟩) :
    (a.body 0).declared.get? name = none ∧ ∀ (b : Analysis) (v : VariableId),
      (b.body 0).declared.get? name = some v →
      (∀ id ≠ 0, (b.body id).declared = (a.body id).declared) →
      ∃ o, env.find b name outer = ⟨some (v, o), withs⟩ := by
  induction h generalizing outer withs with
  | script =>
    unfold find at hfind
    split at hfind
    · cases hfind
    · rename_i hsearch
      split at hfind
      · cases hfind
      · rename_i hnone
        cases hfind
        refine ⟨hnone, fun b v hv _ => ⟨outer, ?_⟩⟩
        unfold find
        dsimp only at hsearch ⊢
        rw [hsearch, hv]
        simp
  | @inside body entries env bound above parent arguments valid hvalid ih =>
    unfold find at hfind
    split at hfind
    · cases hfind
    · rename_i withs' hsearch
      split at hfind
      · cases hfind
      · rename_i hnone
        rcases hmore : env.find a name true with ⟨found, more⟩
        rw [hmore] at hfind
        cases hfind
        obtain ⟨hzero, hb⟩ := ih hmore
        refine ⟨hzero, fun b v hv hdeclared => ?_⟩
        obtain ⟨o, ho⟩ := hb b v hv hdeclared
        refine ⟨o, ?_⟩
        unfold find
        dsimp only at hsearch hnone ⊢
        rw [hsearch, hdeclared body (Nat.ne_of_gt (Nat.zero_lt_of_lt above)), hnone, ho]

/-- Tables that have grown since and are sound again. -/
structure Analysis.Advances (a b : Analysis) : Prop where
  sound : b.Sound
  growth : a.Extends (fun _ => True) (fun _ => True) b

theorem Analysis.Advances.trans {a b c : Analysis} (h : a.Advances b) (h' : b.Advances c) :
    a.Advances c :=
  ⟨h'.sound, h.growth.trans h'.growth⟩

namespace Resolve

variable {a : Analysis}

/-- A variable that is captured is in the record of its body. -/
theorem post_capture (hs : a.Sound) {v : VariableId} (hv : v < a.vars.size)
    (hbody : (a.var v).body < a.bodies.size) (hkind : (a.var v).kind ≠ .arguments) :
    (capture v).Post a fun _ b => a.Advances b ∧ b.vars = a.vars ∧ b.Captured v ∧
      a.Notes b (fun w => w = v) fun _ => False := by
  unfold capture
  refine .bind .tables ?_
  rintro _ b ⟨rfl, rfl⟩
  dsimp only
  split
  · rename_i hcap
    refine .mono (.modifyTables _) ?_
    rintro _ _ rfl
    have howns : b.Owns (b.var v).body [.parameter, .local] v := by
      refine ⟨hv, rfl, ?_⟩
      unfold Variable.isCapturable at hcap
      cases hk : (b.var v).kind <;> simp_all
    have hsound := hs.body (b.var v).body
    refine ⟨⟨hs.modifyBody ?_, b.extends_modifyBody fun _ => ?_⟩, rfl, fun _ => ?_,
      fun id w hw => ?_, fun x hx => ?_⟩
    · split
      · exact hsound
      · rename_i hnew
        refine { hsound with closedOver := fun w hw => ?_, closedOver_nodup := ?_ }
        · rcases List.mem_append.mp hw with hw | hw
          · exact hsound.closedOver w hw
          · rw [List.mem_singleton.mp hw]
            exact howns
        · refine List.Nodup.append hsound.closedOver_nodup (List.nodup_singleton v)
            (List.disjoint_singleton.mpr fun hmem => hnew ?_)
          exact List.contains_iff_mem.mpr hmem
    · split
      · exact .refl _ _
      · exact { BodyInfo.Grows.refl _ (b.body (b.var v).body) with
          closedOver := List.subset_append_left _ _ }
    · simp only [Analysis.var_with_bodies, b.body_modify_self hbody]
      split
      · rename_i hmem
        exact List.contains_iff_mem.mp hmem
      · exact List.mem_append_right _ (List.mem_singleton_self v)
    · rcases eq_or_ne id (b.var v).body with rfl | hne
      · rw [b.body_modify_self hbody] at hw
        split at hw
        · exact .inl hw
        · exact (List.mem_append.mp hw).imp_right List.mem_singleton.mp
      · rw [b.body_modify_of_ne hne] at hw
        exact .inl hw
    · refine .inl ?_
      rwa [Analysis.modifyBody_congr (·.declared) b (b.var v).body
        (fun c => by split <;> rfl)] at hx
  · rename_i hcap
    exact .pure ⟨⟨hs, .refl _ _ _⟩, rfl, fun h => absurd h hcap, .refl _⟩

theorem post_captureForeign (body : FunctionId) {ws : List VariableId} (hs : a.Sound)
    (hws : ∀ w ∈ ws, a.Owns (a.var w).body [.local] w ∧ (a.var w).body < a.bodies.size) :
    (captureForeign body ws).Post a fun _ b => a.Advances b ∧ b.vars = a.vars ∧
      (∀ w ∈ ws, (a.var w).body ≠ body → b.Captured w) ∧
      a.Notes b (fun w => w ∈ ws ∧ (a.var w).body ≠ body) fun _ => False := by
  induction ws generalizing a with
  | nil => exact .pure ⟨⟨hs, .refl _ _ _⟩, rfl, fun w hw => absurd hw List.not_mem_nil, .refl _⟩
  | cons w ws ih =>
    unfold captureForeign
    have hrest {b : Analysis} (hab : a.Advances b) (hvars : b.vars = a.vars)
        (hw : (a.var w).body ≠ body → b.Captured w)
        (hnotes : a.Notes b (fun v => v ∈ w :: ws ∧ (a.var v).body ≠ body) fun _ => False) :
        (captureForeign body ws).Post b fun _ c => a.Advances c ∧ c.vars = a.vars ∧
          (∀ v ∈ w :: ws, (a.var v).body ≠ body → c.Captured v) ∧
          a.Notes c (fun v => v ∈ w :: ws ∧ (a.var v).body ≠ body) fun _ => False := by
      have hvar (v : VariableId) : b.var v = a.var v := by simp only [Analysis.var, hvars]
      refine .mono (ih hab.sound fun v hv => ?_) ?_
      · obtain ⟨howns, hbound⟩ := hws v (List.mem_cons_of_mem _ hv)
        rw [hvar v, hab.growth.bodies_size]
        exact ⟨howns.of_extends hab.growth, hbound⟩
      · rintro _ c ⟨hbc, hvars', hcaptured, hmore⟩
        refine ⟨hab.trans hbc, hvars'.trans hvars, fun v hv hne => ?_,
          hnotes.trans (hmore.mono ?_ fun _ h => h)⟩
        rcases List.mem_cons.mp hv with rfl | hv
        · have hbound := (hws v List.mem_cons_self).1.bound.trans_le hab.growth.size
          exact hbc.growth.captured hbound trivial (hw hne)
        · exact hcaptured v hv (by rwa [hvar v])
        · rintro v ⟨hv, hne⟩
          exact ⟨List.mem_cons_of_mem _ hv, hvar v ▸ hne⟩
    refine .bind .tables ?_
    rintro _ b ⟨rfl, rfl⟩
    dsimp only
    split
    · obtain ⟨howns, hbound⟩ := hws w List.mem_cons_self
      have hkind : (b.var w).kind ≠ .arguments := by
        rw [List.mem_singleton.mp howns.kind]
        simp
      refine .bind (post_capture hs howns.bound hbound hkind)
        fun _ c ⟨hbc, hvars, hcaptured, hnew⟩ => ?_
      refine hrest hbc hvars (fun _ => hcaptured) (hnew.mono ?_ fun _ h => h)
      rintro _ rfl
      exact ⟨List.mem_cons_self, by simp_all⟩
    · rename_i hne
      exact hrest ⟨hs, .refl _ _ _⟩ rfl (fun h => absurd (bne_iff_ne.mpr h) hne) (.refl _)

end Resolve

/-! ### Declarations -/

/-- The tables after a body has declared a name. -/
def Analysis.declare (a : Analysis) (id : FunctionId) (name : String)
    (kind : VariableKind) : Analysis :=
  { a with
    vars := a.vars.push (.plain name kind id)
    bodies := a.bodies.modify id fun b =>
      { b with declared := b.declared.insert name a.vars.size } }

theorem Resolve.post_declare {a : Analysis} (id : FunctionId) (name : String)
    (kind : VariableKind) :
    (declare id name kind).Post a fun v b => v = a.vars.size ∧ b = a.declare id name kind := by
  intro n r s hrun
  cases hrun
  exact ⟨rfl, rfl⟩

namespace Analysis

variable {a : Analysis} {id : FunctionId} {name : String} {kind : VariableKind}

theorem declare_body_of_ne {i : FunctionId} (h : i ≠ id) :
    (a.declare id name kind).body i = a.body i :=
  a.body_modify_of_ne h _

theorem declare_body_self (h : id < a.bodies.size) : (a.declare id name kind).body id =
    { a.body id with declared := (a.body id).declared.insert name a.vars.size } :=
  a.body_modify_self h _

theorem declare_closedOver (a : Analysis) {name : String} {kind : VariableKind} (i : FunctionId) :
    ((a.declare id name kind).body i).closedOver = (a.body i).closedOver :=
  modifyBody_congr (·.closedOver) { a with vars := a.vars.push (.plain name kind id) } id
    (f := fun b => { b with declared := b.declared.insert name a.vars.size }) (fun _ => rfl) i

theorem extends_declare (a : Analysis) (id : FunctionId) (name : String) (kind : VariableKind) :
    a.Extends (fun _ => True) (fun i => i ≠ id) (a.declare id name kind) :=
  ((a.extends_push _).mono (fun _ _ => trivial) fun _ _ => trivial).trans
    (extends_modifyBody _ fun h => absurd rfl h)

/-- The script may declare names at any time. -/
theorem extends_declareGlobal (hnone : ¬ (a.body 0).declared.contains name = true) :
    a.Extends (fun _ => True) (fun _ => True) (a.declare 0 name kind) := by
  refine (a.extends_push _).trans (extends_modifyBody _ fun _ => ?_)
  refine { BodyInfo.Grows.refl 0 (a.body 0) with declared := fun x v hv => ?_, fixed := nofun }
  change (a.body 0).declared.get? x = some v at hv
  change ((a.body 0).declared.insert name a.vars.size).get? x = some v
  rw [NameTable.get?_insert _ hnone]
  split_ifs with hx
  · rw [hx, NameTable.get?_eq_none _ hnone] at hv
    cases hv
  · exact hv

theorem declare_var_self : (a.declare id name kind).var a.vars.size = .plain name kind id :=
  a.var_push_self _

theorem Sound.declare (hs : a.Sound) (hid : id < a.bodies.size)
    (hnone : ¬ (a.body id).declared.contains name = true) (hkind : kind ∈ declarableKinds id)
    (harguments : kind = .arguments → name = "arguments") :
    (a.declare id name kind).Sound := by
  have hpush : Sound { a with vars := a.vars.push (.plain name kind id) } :=
    hs.push ⟨.inl rfl, nofun, rfl, harguments⟩ ⟨hid, nofun, List.forall_mem_nil _⟩
  refine hpush.modifyBody ?_
  refine { hpush.body id with
    tidy := (hs.body id).tidy.insert hnone (hs.body id).order_lt
    declared := fun x v hv => ?_
    apart := fun v hv x hx => ?_ }
  · change ((a.body id).declared.insert name a.vars.size).get? x = some v at hv
    rw [NameTable.get?_insert _ hnone] at hv
    split_ifs at hv with hx
    · cases hv
      refine ⟨⟨by simp, ?_, ?_⟩, ?_⟩
      · rw [a.var_push_self]
        rfl
      · rw [a.var_push_self]
        exact hkind
      · rw [a.var_push_self, hx]
        rfl
    · exact (hpush.body id).declared x v hv
  · change ((a.body id).declared.insert name a.vars.size).get? x = some v at hx
    rw [NameTable.get?_insert _ hnone] at hx
    split_ifs at hx
    · cases hx
      exact absurd ((hs.body id).synthetic _ hv).bound (lt_irrefl _)
    · exact (hs.body id).apart v hv x hx

end Analysis

namespace Resolve

variable {a : Analysis}

/-- A name that the script does not have yet is added to it. -/
theorem post_declareGlobal (hs : a.Sound) (hbound : 0 < a.bodies.size) {name : String}
    (hnone : (a.body 0).declared.get? name = none) :
    (declareGlobal name).Post a fun v b => a.Advances b ∧
      (b.body 0).declared.get? name = some v ∧ (b.var v).kind = .global ∧
      (∀ id ≠ 0, (b.body id).declared = (a.body id).declared) ∧
      a.Notes b (fun _ => False) fun x => x = name := by
  have hnot : ¬ (a.body 0).declared.contains name = true := by
    rw [← NameTable.isSome_get?, hnone]
    simp
  unfold declareGlobal declareOnce
  refine .bind .tables ?_
  rintro _ b ⟨rfl, rfl⟩
  rw [hnone]
  refine .mono (post_declare 0 name .global) ?_
  rintro _ _ ⟨rfl, rfl⟩
  refine ⟨⟨hs.declare hbound hnot (List.mem_singleton.mpr rfl) nofun,
    Analysis.extends_declareGlobal hnot⟩,
    ?_, ?_, fun id hid => ?_, fun id w hw => .inl (b.declare_closedOver id ▸ hw), fun x hx => ?_⟩
  · rw [Analysis.declare_body_self hbound]
    dsimp only
    rw [NameTable.get?_insert _ hnot, if_pos rfl]
  · rw [Analysis.declare_var_self]
    rfl
  · rw [Analysis.declare_body_of_ne hid]
  · rw [Analysis.declare_body_self hbound] at hx
    exact (NameTable.contains_insert _ hnot _ _).mp hx

variable {env : Environment}

/-- The variable that a search ended at is the one that a later search ends at. -/
theorem post_lookedUp (hs : a.Sound) (henv : env.Valid a) {name : String}
    {found : Option (VariableId × Bool)} {withs : List VariableId}
    (hfind : env.find a name false = ⟨found, withs⟩) :
    (lookedUp name found).Post a fun target b => a.Advances b ∧
      (∃ outer, env.find b name false = ⟨some (target, outer), withs⟩ ∧
        (outer = true → b.Captured target)) ∧
      a.Notes b (fun w => w = target ∧ (b.var w).body ≠ current env ∧ (b.var w).body ∈ env.bodies)
        fun x => x = name := by
  have hall (b : Analysis) (hab : a.Advances b) {v : VariableId} {outer : Bool}
      (hfound : found = some (v, outer)) :
      env.find b name false = ⟨some (v, outer), withs⟩ := by
    rw [henv.find_of_extends hab.growth (fun _ _ => trivial) (by rw [hfind, hfound]; rfl),
      hfind, hfound]
  cases found with
  | none =>
    obtain ⟨hnone, hlater⟩ := henv.find_none hfind
    have hbound := henv.bodies_lt_size
    refine .mono (post_declareGlobal hs (Nat.zero_lt_of_lt (hbound _ henv.current_mem)) hnone) ?_
    rintro v b ⟨hab, hget, hkind, hdeclared, hnew⟩
    obtain ⟨outer, hb⟩ := hlater b v hget hdeclared
    refine ⟨hab, ⟨outer, hb, fun _ hcap => ?_⟩, hnew.mono (fun _ h => h.elim) fun _ h => h⟩
    unfold Variable.isCapturable at hcap
    rw [hkind] at hcap
    cases hcap
  | some p =>
    obtain ⟨v, outer⟩ := p
    unfold lookedUp
    dsimp only
    split
    · rename_i houter
      obtain ⟨hname, ⟨id, hid, howns⟩, -, hforeign⟩ := (henv.of_find hs hfind).1 v outer rfl
      have hkind : (a.var v).kind ≠ .arguments := by
        intro hkind
        have hfind' := (hs.var v howns.bound).arguments hkind ▸ hname ▸ hfind
        rw [henv.find_arguments hfind'] at houter
        cases houter
      refine .bind (post_capture hs howns.bound ?_ hkind) ?_
      · rw [howns.body]
        exact henv.bodies_lt_size id hid
      · rintro _ b ⟨hab, hvars, hcaptured, hnew⟩
        refine .pure ⟨hab, ⟨outer, hall b hab rfl, fun _ => hcaptured⟩,
          hnew.mono ?_ fun _ h => h.elim⟩
        rintro _ rfl
        rw [hab.growth.var _ howns.bound]
        exact ⟨rfl, (hforeign houter).resolve_left nofun, howns.body ▸ hid⟩
    · rename_i houter
      exact .pure ⟨⟨hs, .refl _ _ _⟩, ⟨outer, hfind, fun h => absurd h houter⟩, .refl _⟩

/-- A name is resolved to what it denotes.  Only variables of bodies around that it uses are
captured, and no other name becomes one of the script's. -/
theorem post_resolve (hs : a.Sound) (henv : env.Valid a) (name : String) :
    (resolve env name).Post a fun v b => a.Advances b ∧ env.Denotes b name v ∧ v < b.vars.size ∧
      a.Notes b (fun w => w < b.vars.size ∧ b.Uses v w ∧ (b.var w).body ≠ current env ∧
        (b.var w).body ∈ env.bodies) fun x => x = name := by
  unfold resolve
  refine .bind .tables ?_
  rintro _ a ⟨rfl, rfl⟩
  rcases hfind : env.find a name false with ⟨found, withs⟩
  refine .bind (post_lookedUp hs henv hfind) ?_
  rintro target b ⟨hab, ⟨outer, hfind', hcaptured⟩, hnew⟩
  have henvb := henv.of_extends hab.growth fun _ _ => trivial
  obtain ⟨hfound, hholders⟩ := henvb.of_find hab.sound hfind'
  obtain ⟨-, ⟨id, hid, htarget⟩, -⟩ := hfound target outer rfl
  dsimp only
  split
  · rename_i hwiths
    refine .pure ⟨hab,
      ⟨target, outer, withs, hfind', hcaptured, .inl ⟨List.isEmpty_iff.mp hwiths, rfl⟩⟩,
      htarget.bound, hnew.mono ?_ fun _ h => h⟩
    rintro _ ⟨rfl, hne, hmem⟩
    exact ⟨htarget.bound, .inl rfl, hne, hmem⟩
  · rename_i hwiths
    have howns (w : VariableId) (hw : w ∈ withs) :
        b.Owns (b.var w).body [.local] w ∧ (b.var w).body < b.bodies.size := by
      obtain ⟨id, hid, howns⟩ := hholders w hw
      rw [howns.body]
      exact ⟨howns, henvb.bodies_lt_size id hid⟩
    refine .bind (post_captureForeign (current env) hab.sound howns) ?_
    rintro _ c ⟨hbc, -, hforeign, hmore⟩
    refine .bind .tables ?_
    rintro _ c ⟨rfl, rfl⟩
    refine .mono (.addVariable _) ?_
    rintro _ _ ⟨rfl, rfl⟩
    have hpush := c.extends_push
      { Variable.plain name .withScope (current env) with
        fallback := some target
        withChain := withs.map fun w => (w, (c.var w).body) }
    have hbd := hbc.growth.trans hpush
    have hcovers : c.Covers { Variable.plain name .withScope (current env) with
        fallback := some target
        withChain := withs.map fun w => (w, (c.var w).body) } := by
      refine ⟨?_, fun v hv => ?_, fun p hp => ?_⟩
      · rw [hbc.growth.bodies_size]
        exact henvb.bodies_lt_size _ henvb.current_mem
      · cases hv
        exact htarget.bound.trans_le hbc.growth.size
      · obtain ⟨w, hw, rfl⟩ := List.mem_map.mp hp
        have hbound := (howns w hw).1.bound
        dsimp only
        rw [hbc.growth.var w hbound, hbc.growth.bodies_size]
        exact ⟨hbound.trans_le hbc.growth.size, (howns w hw).2⟩
    refine ⟨⟨hbc.sound.push ⟨.inl rfl, nofun, rfl, nofun⟩ hcovers, hab.growth.trans hbd⟩,
      ⟨target, outer, withs,
      ?_, fun ho => ?_, .inr ⟨fun h => hwiths (List.isEmpty_iff.mpr h), ?_, ?_,
        fun w hw hne => ?_⟩⟩,
      by simp, fun i w hw => ?_, fun x hx => ?_⟩
    · rw [henvb.find_of_extends hbd (fun _ _ => trivial) (by rw [hfind']; rfl), hfind']
    · exact hbd.captured htarget.bound trivial (hcaptured ho)
    · simp
    · have hchain : (withs.map fun w => (w, (c.var w).body)) = withs.map fun w =>
          (w, (Analysis.var { c with
            vars := c.vars.push { Variable.plain name .withScope (current env) with
              fallback := some target
              withChain := withs.map fun w => (w, (c.var w).body) } } w).body) :=
        List.map_congr_left fun w hw => by
          rw [c.var_push_of_lt ((howns w hw).1.bound.trans_le hbc.growth.size)]
      rw [c.var_push_self, ← hchain]
    · have hbound := (howns w hw).1.bound
      rw [hbd.var w hbound] at hne
      exact hpush.captured (hbound.trans_le hbc.growth.size) trivial (hforeign w hw hne)
    · rcases hmore.captured i w hw with hw | ⟨hw, hne⟩
      · rcases hnew.captured i w hw with hw | ⟨rfl, hne, hmem⟩
        · exact .inl hw
        · have hbody := congrArg Variable.body (hbd.var _ htarget.bound)
          refine .inr ⟨htarget.bound.trans_le hbd.size, .inr ⟨?_, .inl ?_⟩,
            fun h => hne (hbody.symm.trans h), hbody.symm ▸ hmem⟩ <;>
            rw [c.var_push_self]
          rfl
      · obtain ⟨id, hid, hholder⟩ := hholders w hw
        have hbody := congrArg Variable.body (hbd.var _ hholder.bound)
        refine .inr ⟨hholder.bound.trans_le hbd.size, .inr ⟨?_, .inr ?_⟩,
          fun h => hne (hbody.symm.trans h), hbody.symm ▸ hholder.body.symm ▸ hid⟩ <;>
          rw [c.var_push_self]
        · rfl
        · simpa using hw
    · exact hnew.declared x ((hmore.declared x hx).resolve_right not_false)

end Resolve

/-! ### Opening a body -/

namespace Analysis

theorem namesFunction_setReference {a : Analysis} {id : FunctionId} {n : NodeId} {v : VariableId}
    (hn : n < a.references.size) (hv : a.Owns id (declarableKinds id) v)
    (h : (a.var v).HoldsFunction) :
    NamesFunction { a with references := a.references.setIfInBounds n (some v) } id n :=
  ⟨v, Array.getElem?_setIfInBounds_self_of_lt hn, ⟨hv.bound, hv.body, hv.kind⟩, h⟩

/-- The tables while a body declares its names: `T` are the nodes that belong to the body, `S` those
that name functions, and `K` says what each name is. -/
structure Declaring (base : Analysis) (id : FunctionId) (T S : NodeId → Prop)
    (K : String → VariableKind) (names : String → Prop) (a : Analysis) : Prop where
  bound : id < a.bodies.size
  sound : a.Sound
  growth : base.Extends (fun n => ¬ T n) (fun i => i ≠ id) a
  parent : (a.body id).parent = (base.body id).parent
  fresh : ∀ x v, (a.body id).declared.get? x = some v → base.vars.size ≤ v
  names : ∀ x, (a.body id).declared.contains x = true ↔ names x
  kinds : ∀ x v, (a.body id).declared.get? x = some v → (a.var v).kind = K x
  closedOver : ∀ i, (a.body i).closedOver = (base.body i).closedOver
  others : ∀ i ≠ id, (a.body i).declared = (base.body i).declared
  named : ∀ n, S n → a.NamesFunction id n

namespace Declaring

variable {base a : Analysis} {id : FunctionId} {T S : NodeId → Prop} {K : String → VariableKind}
  {names : String → Prop}

theorem declare (h : base.Declaring id T S K names a) {x : String} {kind : VariableKind}
    (hx : ¬ names x) (hK : kind = K x) (hkind : kind ∈ declarableKinds id)
    (harguments : kind = .arguments → x = "arguments") :
    base.Declaring id T S K (fun y => names y ∨ y = x) (a.declare id x kind) := by
  have hnone : ¬ (a.body id).declared.contains x = true := fun hc => hx ((h.names x).mp hc)
  have hgrowth := a.extends_declare id x kind
  have hget (y : String) : ((a.declare id x kind).body id).declared.get? y =
      if y = x then some a.vars.size else (a.body id).declared.get? y := by
    rw [declare_body_self h.bound]
    exact NameTable.get?_insert _ hnone _ _
  refine
    { bound := hgrowth.bodies_size ▸ h.bound
      sound := h.sound.declare h.bound hnone hkind harguments
      growth := h.growth.trans (hgrowth.mono (fun _ _ => trivial) fun _ h => h)
      parent := ?_
      fresh := fun y v hv => ?_
      names := fun y => ?_
      kinds := fun y v hv => ?_
      closedOver := fun i => (a.declare_closedOver i).trans (h.closedOver i)
      others := fun i hi => by rw [declare_body_of_ne hi, h.others i hi]
      named := fun n hn => (h.named n hn).of_extends hgrowth trivial }
  · rw [declare_body_self h.bound]
    exact h.parent
  · rw [hget] at hv
    split_ifs at hv with hy
    · cases hv
      exact h.growth.size
    · exact h.fresh y v hv
  · rw [declare_body_self h.bound]
    exact (NameTable.contains_insert _ hnone _ _).trans (or_congr_left (h.names y))
  · rw [hget] at hv
    split_ifs at hv with hy
    · cases hv
      rw [declare_var_self, hy]
      exact hK
    · rw [hgrowth.var v ((h.sound.body id).declared y v hv).1.bound]
      exact h.kinds y v hv

theorem declareOnce (h : base.Declaring id T S K names a) {x : String} {kind : VariableKind}
    (hkind : ¬ names x → kind = K x ∧ kind ∈ declarableKinds id ∧
      (kind = .arguments → x = "arguments")) :
    (Resolve.declareOnce id x kind).Post a fun v b =>
      base.Declaring id T S K (fun y => names y ∨ y = x) b ∧ (b.body id).declared.get? x =
        some v := by
  unfold Resolve.declareOnce
  refine .bind .tables ?_
  rintro _ a ⟨rfl, rfl⟩
  split
  · rename_i v hv
    have hx : names x := (h.names x).mp ((NameTable.contains_iff _).mpr ⟨v, hv⟩)
    refine .pure ⟨{ h with names := fun y => (h.names y).trans ⟨.inl, ?_⟩ }, hv⟩
    rintro (hy | rfl)
    · exact hy
    · exact hx
  · rename_i hv
    have hnone : ¬ (a.body id).declared.contains x = true := by
      rw [← NameTable.isSome_get?, hv]
      simp
    have hx : ¬ names x := fun hx => hnone ((h.names x).mpr hx)
    obtain ⟨hK, hdeclarable, harguments⟩ := hkind hx
    refine .mono (Resolve.post_declare id x kind) ?_
    rintro _ _ ⟨rfl, rfl⟩
    refine ⟨h.declare hx hK hdeclarable harguments, ?_⟩
    rw [declare_body_self h.bound]
    exact (NameTable.get?_insert _ hnone _ _).trans (if_pos rfl)

theorem modifyVariable (h : base.Declaring id T S K names a) {x : String} {v : VariableId}
    (hv : (a.body id).declared.get? x = some v) {f : Variable → Variable}
    (hf : (a.var v).Keeps (f (a.var v))) (hs : (f (a.var v)).Sound)
    (hfunction : (a.var v).HoldsFunction → (f (a.var v)).HoldsFunction) :
    base.Declaring id T S K names { a with vars := a.vars.modify v f } := by
  have hbound := ((h.sound.body id).declared x v hv).1.bound
  refine
    { bound := h.bound
      sound := h.sound.modifyVariable hbound hf hs
      growth := extends_modifyVariable h.growth (h.fresh x v hv) f
      parent := h.parent
      fresh := h.fresh
      names := h.names
      kinds := fun y w hw => ?_
      closedOver := h.closedOver
      others := h.others
      named := fun n hn => ?_ }
  · rcases eq_or_ne w v with rfl | hne
    · rw [a.var_modify_self hbound, hf.kind]
      exact h.kinds y w hw
    · rw [a.var_modify_of_ne hne]
      exact h.kinds y w hw
  · obtain ⟨w, hw, howns, hholds⟩ := h.named n hn
    rcases eq_or_ne w v with rfl | hne
    · refine ⟨w, hw, ⟨by simpa using howns.bound, ?_, ?_⟩, ?_⟩ <;> rw [a.var_modify_self hbound]
      · rw [hf.body, howns.body]
      · rw [hf.kind]
        exact howns.kind
      · exact hfunction hholds
    · refine ⟨w, hw, ⟨by simpa using howns.bound, ?_, ?_⟩, ?_⟩ <;> rw [a.var_modify_of_ne hne]
      · exact howns.body
      · exact howns.kind
      · exact hholds

theorem setReference (h : base.Declaring id T S K names a) {n : NodeId} {v : VariableId} (hn : T n)
    (hv : a.Owns id (declarableKinds id) v)
    (hS : S n → n < base.references.size ∧ (a.var v).HoldsFunction) :
    base.Declaring id T S K names
      { a with references := a.references.setIfInBounds n (some v) } := by
  refine
    { h with
      sound := h.sound.setReference n hv.bound
      growth := h.growth.trans ((a.extends_setReference n v).mono ?_ fun _ _ => trivial)
      named := fun m hm => ?_ }
  · rintro m hm rfl
    exact hm hn
  · rcases eq_or_ne n m with rfl | hne
    · exact namesFunction_setReference (h.growth.references_size ▸ (hS hm).1) hv (hS hm).2
    · obtain ⟨w, hw, howns, hholds⟩ := h.named m hm
      exact ⟨w, (Array.getElem?_setIfInBounds_ne hne).trans hw,
        ⟨howns.bound, howns.body, howns.kind⟩, hholds⟩

theorem modifyBody (h : base.Declaring id T S K names a) {f : BodyInfo → BodyInfo}
    (hf : a.BodySound id (f (a.body id))) (hdeclared : ∀ b, (f b).declared = b.declared)
    (hparent : ∀ b, (f b).parent = b.parent) (hclosed : ∀ b, (f b).closedOver = b.closedOver) :
    base.Declaring id T S K names { a with bodies := a.bodies.modify id f } := by
  have hd : (Analysis.body { a with bodies := a.bodies.modify id f } id).declared =
      (a.body id).declared := by
    rw [a.body_modify_self h.bound, hdeclared]
  refine
    { bound := by simpa using h.bound
      sound := h.sound.modifyBody hf
      growth := h.growth.trans
        ((a.extends_modifyBody fun hne => absurd rfl hne).mono (fun _ _ => trivial) fun _ h => h)
      parent := by rw [a.body_modify_self h.bound, hparent, h.parent]
      fresh := by rw [hd]; exact h.fresh
      names := by rw [hd]; exact h.names
      kinds := by rw [hd]; exact h.kinds
      closedOver := fun i => (modifyBody_congr (·.closedOver) a id hclosed i).trans (h.closedOver i)
      others := fun i hi => by rw [a.body_modify_of_ne hi, h.others i hi]
      named := fun n hn => ?_ }
  obtain ⟨v, hv, howns, hholds⟩ := h.named n hn
  exact ⟨v, hv, ⟨howns.bound, howns.body, howns.kind⟩, hholds⟩

theorem mono (h : base.Declaring id T S K names a) {names' : String → Prop}
    (hnames : ∀ x, names x ↔ names' x) : base.Declaring id T S K names' a :=
  { h with names := fun x => (h.names x).trans (hnames x) }

theorem declareVariables (h : base.Declaring id T S K names a) {kind : VariableKind}
    {xs : List String} (hkind : ∀ x ∈ xs, ¬ names x → kind = K x)
    (hdeclarable : kind ∈ declarableKinds id) (harguments : kind ≠ .arguments) :
    (Resolve.declareVariables id kind xs).Post a fun _ b =>
      base.Declaring id T S K (fun y => names y ∨ y ∈ xs) b := by
  induction xs generalizing a names with
  | nil => exact .pure (h.mono fun x => by simp)
  | cons x xs ih =>
    unfold Resolve.declareVariables
    refine .bind (h.declareOnce fun hx =>
      ⟨hkind x List.mem_cons_self hx, hdeclarable, fun h => absurd h harguments⟩) ?_
    rintro _ b ⟨hb, -⟩
    refine .mono (ih hb fun y hy hny => hkind y (List.mem_cons_of_mem _ hy) fun h =>
      hny (.inl h)) ?_
    exact fun _ c hc => hc.mono fun y => by simp only [List.mem_cons, or_assoc]

theorem declareParameters (h : base.Declaring id T S K names a) (hid : id ≠ 0)
    {ps : List Identifier} {position : Nat} (hT : ∀ p ∈ ps, T p.id) (hS : ∀ p ∈ ps, ¬ S p.id)
    (hK : ∀ p ∈ ps, K p.name = .parameter) :
    (Resolve.declareParameters id position ps).Post a fun _ b =>
      base.Declaring id T S K (fun y => names y ∨ y ∈ ps.map (·.name)) b := by
  induction ps generalizing a names position with
  | nil => exact .pure (h.mono fun x => by simp)
  | cons p ps ih =>
    unfold Resolve.declareParameters
    refine .bind (h.declareOnce fun _ => ⟨(hK p List.mem_cons_self).symm, ?_, nofun⟩) ?_
    · unfold declarableKinds
      rw [if_neg hid]
      exact List.mem_cons_self
    rintro v b ⟨hb, hv⟩
    have hbound := ((hb.sound.body id).declared _ v hv).1.bound
    have hvar := hb.sound.var v hbound
    refine .bind (.modifyTables _) ?_
    rintro _ _ rfl
    have hindex := hb.modifyVariable hv (f := fun x => { x with index := some position })
      ⟨rfl, rfl, rfl, fun h => h, rfl, rfl⟩ ⟨hvar.valueType, hvar.immutable, hvar.field,
        hvar.arguments⟩
      fun h => h
    refine .bind (.modifyTables _) ?_
    rintro _ _ rfl
    have hparams := hindex.modifyBody (f := fun x => { x with params := x.params ++ [v] })
      { hindex.sound.body id with } (fun _ => rfl) (fun _ => rfl) fun _ => rfl
    refine .bind (.modifyTables _) ?_
    rintro _ _ rfl
    have howns := ((hindex.sound.body id).declared _ v hv).1
    have hreference := hparams.setReference (v := v) (hT p List.mem_cons_self)
      ⟨howns.bound, howns.body, howns.kind⟩ fun h => absurd h (hS p List.mem_cons_self)
    refine .mono (ih hreference (fun q hq => hT q (List.mem_cons_of_mem _ hq))
      (fun q hq => hS q (List.mem_cons_of_mem _ hq))
      fun q hq => hK q (List.mem_cons_of_mem _ hq)) ?_
    exact fun _ c hc => hc.mono fun y => by simp only [List.map_cons, List.mem_cons, or_assoc]

theorem declareFunctions (h : base.Declaring id T S K names a) {kind : VariableKind}
    {fs : List Func}
    (hT : ∀ f ∈ fs, ∀ i, f.identifier? = some i → T i.id ∧ i.id < base.references.size)
    (hkind : ∀ f ∈ fs, ¬ names f.name → kind = K f.name) (hdeclarable : kind ∈ declarableKinds id)
    (harguments : kind ≠ .arguments) :
    (Resolve.declareFunctions id kind fs).Post a fun _ b => base.Declaring id T
      (fun n => S n ∨ ∃ f ∈ fs, ∃ i, f.identifier? = some i ∧ i.id = n) K
      (fun y => names y ∨ y ∈ fs.map Func.name) b := by
  induction fs generalizing a names S with
  | nil =>
    have hnames : base.Declaring id T S K (fun y => names y ∨ y ∈ [].map Func.name) a :=
      h.mono fun x => by simp
    exact .pure { hnames with named := fun n hn => h.named n (by simpa using hn) }
  | cons f fs ih =>
    unfold Resolve.declareFunctions
    refine .bind (h.declareOnce fun hx =>
      ⟨hkind f List.mem_cons_self hx, hdeclarable, fun h => absurd h harguments⟩) ?_
    rintro v b ⟨hb, hv⟩
    have hrest {c : Analysis} (hc : base.Declaring id T
        (fun n => S n ∨ ∃ i, f.identifier? = some i ∧ i.id = n) K
          (fun y => names y ∨ y = f.name) c) :
        (Resolve.declareFunctions id kind fs).Post c fun _ d => base.Declaring id T
          (fun n => S n ∨ ∃ g ∈ f :: fs, ∃ i, g.identifier? = some i ∧ i.id = n) K
          (fun y => names y ∨ y ∈ (f :: fs).map Func.name) d := by
      refine .mono (ih hc (fun g hg => hT g (List.mem_cons_of_mem _ hg))
        fun g hg hn => hkind g (List.mem_cons_of_mem _ hg) fun h => hn (.inl h)) fun _ d hd => ?_
      have hnames : base.Declaring id T _ K (fun y => names y ∨ y ∈ (f :: fs).map Func.name) d :=
        hd.mono fun y => by simp only [List.map_cons, List.mem_cons, or_assoc]
      refine { hnames with named := fun n hn => hd.named n ?_ }
      simpa only [List.exists_mem_cons_iff, or_assoc] using hn
    split
    · rename_i i hi
      have hbound := ((hb.sound.body id).declared _ v hv).1.bound
      have hvar := hb.sound.var v hbound
      refine .bind (.modifyTables _) ?_
      rintro _ _ rfl
      have hhoisted := hb.modifyVariable hv (f := fun x => { x with hoisted := true })
        ⟨rfl, rfl, rfl, fun h => h, rfl, rfl⟩ ⟨hvar.valueType, hvar.immutable, hvar.field,
          hvar.arguments⟩
        fun _ => .inl rfl
      have hholds : (Analysis.var { b with
          vars := b.vars.modify v fun x => { x with hoisted := true } } v).HoldsFunction := by
        rw [b.var_modify_self hbound]
        exact .inl rfl
      refine .bind (.modifyTables _) ?_
      rintro _ _ rfl
      have howns := ((hhoisted.sound.body id).declared _ v hv).1
      obtain ⟨hnode, hlt⟩ := hT f List.mem_cons_self i hi
      have hreference := hhoisted.setReference hnode howns fun _ => ⟨hlt, hholds⟩
      refine hrest { hreference with named := fun n hn => ?_ }
      rcases hn with hn | ⟨j, hj, rfl⟩
      · exact hreference.named n hn
      · rw [hi] at hj
        cases hj
        exact namesFunction_setReference (hhoisted.growth.references_size ▸ hlt) howns hholds
    · rename_i hi
      refine hrest { hb with named := fun n hn => hb.named n ?_ }
      rcases hn with hn | ⟨i, hi', -⟩
      · exact hn
      · rw [hi] at hi'
        cases hi'

theorem declareSelf (h : base.Declaring id T S K names a) (hid : id ≠ 0) {i : Identifier}
    (hT : T i.id ∧ i.id < base.references.size) (hK : ¬ names i.name → K i.name = .local) :
    (Resolve.declareSelf id i).Post a fun _ b =>
      base.Declaring id T S K (fun y => names y ∨ y = i.name) b := by
  unfold Resolve.declareSelf
  refine .bind .tables ?_
  rintro _ a ⟨rfl, rfl⟩
  split
  · rename_i hcontains
    have hnone : ¬ (a.body id).declared.contains i.name = true := by simpa using hcontains
    have hx : ¬ names i.name := fun hx => hnone ((h.names _).mpr hx)
    refine .bind (Resolve.post_declare id i.name .local) ?_
    rintro _ _ ⟨rfl, rfl⟩
    have hb := h.declare hx (hK hx).symm (by simp [declarableKinds, hid]) nofun
    have hget : ((a.declare id i.name .local).body id).declared.get? i.name = some a.vars.size := by
      rw [declare_body_self h.bound]
      exact (NameTable.get?_insert _ hnone _ _).trans (if_pos rfl)
    have hbound := ((hb.sound.body id).declared _ _ hget).1.bound
    refine .bind (.modifyTables _) ?_
    rintro _ _ rfl
    have hobject := hb.modifyVariable hget
      (f := fun x => { x with valueType := .object, immutable := true })
      ⟨rfl, rfl, rfl, fun _ => rfl, rfl, rfl⟩
      ⟨.inr rfl, fun _ => rfl, (hb.sound.var _ hbound).field, (hb.sound.var _ hbound).arguments⟩
      fun _ => .inr rfl
    refine .bind (.modifyTables _) ?_
    rintro _ _ rfl
    have hvar : Analysis.var { a.declare id i.name .local with
        vars := (a.declare id i.name .local).vars.modify a.vars.size
          fun x => { x with valueType := .object, immutable := true } } a.vars.size =
        { Variable.plain i.name .local id with valueType := .object, immutable := true } := by
      rw [Analysis.var_modify_self _ hbound, declare_var_self]
    have hself := hobject.modifyBody (f := fun x => { x with selfBinding := some a.vars.size })
      { hobject.sound.body id with
        selfBinding := fun v hv => by
          cases hv
          rw [hvar]
          refine ⟨⟨by simpa using hbound, ?_, ?_⟩, rfl⟩
          · rw [hvar]
            rfl
          · rw [hvar]
            exact List.mem_cons_self }
      (fun _ => rfl) (fun _ => rfl) fun _ => rfl
    refine .mono (.modifyTables _) ?_
    rintro _ _ rfl
    have howns := ((hobject.sound.body id).declared _ _ hget).1
    refine hself.setReference hT.1 ⟨howns.bound, howns.body, howns.kind⟩ fun _ => ⟨hT.2, .inr ?_⟩
    rw [Analysis.var_with_bodies, hvar]
  · rename_i hcontains
    have hx : names i.name := (h.names _).mp (by simpa using hcontains)
    refine .pure (h.mono fun y => ⟨.inl, ?_⟩)
    rintro (hy | rfl)
    · exact hy
    · exact hx

theorem declareArguments (h : base.Declaring id T S K names a) (hid : id ≠ 0)
    (hx : ¬ names "arguments") (hK : K "arguments" = .arguments) :
    base.Declaring id T S K (fun y => names y ∨ y = "arguments")
      { a.declare id "arguments" .arguments with
        bodies := (a.declare id "arguments" .arguments).bodies.modify id fun b =>
          { b with arguments := some a.vars.size } } := by
  have hb := h.declare hx hK.symm (by simp [declarableKinds, hid]) fun _ => rfl
  refine hb.modifyBody { hb.sound.body id with arguments := fun v hv => ?_ }
    (fun _ => rfl) (fun _ => rfl) fun _ => rfl
  cases hv
  refine ⟨(a.vars.size_push _).symm ▸ Nat.lt_succ_self _, ?_, ?_⟩
  · rw [declare_var_self]
    rfl
  · rw [declare_var_self]
    exact List.mem_cons_self

end Declaring

end Analysis

theorem mem_declaredNames {x : String} {body : List Stmt} :
    x ∈ declaredNames body ↔ x ∈ bodyVarNames body := by
  have hfold (seen names : List String) :
      x ∈ names.foldl (fun seen n => if seen.contains n then seen else seen ++ [n]) seen ↔
        x ∈ seen ∨ x ∈ names := by
    induction names generalizing seen with
    | nil => simp
    | cons n names ih =>
      rw [List.foldl_cons, ih]
      split
      · rename_i hmem
        have := List.contains_iff_mem.mp hmem
        grind
      · grind
  unfold declaredNames distinctNames
  rw [hfold]
  simp

namespace Resolve

open Analysis

/-- All that a function binds in its body is declared. -/
theorem post_declareBody {base a : Analysis} {f : Func} {T S : NodeId → Prop}
    (h : base.Declaring f.id T S f.bindingKind (fun _ => False) a) (hid : f.id ≠ 0)
    (hparams : ∀ p ∈ f.params, T p.id ∧ ¬ S p.id)
    (hfunctions : ∀ g ∈ bodyFunctions f.body, ∀ i, g.identifier? = some i →
      T i.id ∧ i.id < base.references.size)
    (hself : f.isExpression = true → ∀ i, f.identifier? = some i →
      T i.id ∧ i.id < base.references.size) :
    (declareBody f).Post a fun _ b => base.Declaring f.id T
      (fun n => S n ∨ ∃ g ∈ bodyFunctions f.body, ∃ i, g.identifier? = some i ∧ i.id = n)
      f.bindingKind f.Binds b := by
  have hlocal : VariableKind.local ∈ declarableKinds f.id := by simp [declarableKinds, hid]
  unfold declareBody
  refine .bind (h.declareParameters hid (fun p hp => (hparams p hp).1)
    (fun p hp => (hparams p hp).2) fun p hp => if_pos (List.mem_map_of_mem hp)) fun _ b hb => ?_
  have hrest {c : Analysis} (hc : base.Declaring f.id T S f.bindingKind
      (fun y => y ∈ f.params.map (·.name) ∨ y = "arguments") c) :
      (declareLocals f).Post c fun _ d => base.Declaring f.id T
        (fun n => S n ∨ ∃ g ∈ bodyFunctions f.body, ∃ i, g.identifier? = some i ∧ i.id = n)
        f.bindingKind f.Binds d := by
    have hK {x : String} (hx : ¬ (x ∈ f.params.map (·.name) ∨ x = "arguments")) :
        f.bindingKind x = .local := by
      rw [not_or] at hx
      unfold Func.bindingKind
      rw [if_neg hx.1, if_neg hx.2]
    refine .bind (hc.declareVariables (fun x _ hx => (hK hx).symm) hlocal nofun) fun _ d hd => ?_
    refine .bind (hd.declareFunctions hfunctions (fun g _ hg => (hK fun h => hg (.inl h)).symm)
      hlocal nofun) fun _ e he => ?_
    split
    · rename_i name hexpression hname
      refine .mono (he.declareSelf hid (hself hexpression name hname) fun hx => hK fun h =>
        hx (.inl (.inl h))) fun _ g hg => hg.mono fun x => ?_
      simp only [Func.Binds, mem_declaredNames, hexpression, hname, true_and, Option.some.injEq,
        exists_eq_left', or_assoc, eq_comm]
    · rename_i hno
      refine .pure (he.mono fun x => ?_)
      have : ¬ (f.isExpression = true ∧ ∃ i, f.identifier? = some i ∧ i.name = x) := by
        rintro ⟨hexpression, i, hi, -⟩
        exact hno i hexpression hi
      simp only [Func.Binds, mem_declaredNames, this, or_false, or_assoc]
  refine .bind .tables ?_
  rintro _ b ⟨rfl, rfl⟩
  have hb' : base.Declaring f.id T S f.bindingKind (fun y => y ∈ f.params.map (·.name)) b :=
    hb.mono fun x => by simp
  dsimp only
  split
  · rename_i hcontains
    have hx : ¬ "arguments" ∈ f.params.map (·.name) := fun hx => by
      rw [← hb'.names] at hx
      simp [hx] at hcontains
    refine .bind (post_declare f.id "arguments" .arguments) ?_
    rintro _ _ ⟨rfl, rfl⟩
    refine .bind (.modifyTables _) ?_
    rintro _ _ rfl
    refine hrest (hb'.declareArguments hid hx ?_)
    unfold Func.bindingKind
    rw [if_neg hx, if_pos rfl]
  · rename_i hcontains
    refine hrest (hb'.mono fun y => ⟨.inl, ?_⟩)
    rintro (hy | rfl)
    · exact hy
    · rw [← hb'.names]
      simpa using hcontains

end Resolve

end ScriptEngine
