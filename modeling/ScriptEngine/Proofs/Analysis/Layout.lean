import ScriptEngine.Analysis.Capture
import ScriptEngine.Proofs.Analysis.Tables

/-!
# Record layouts

Every body with captured variables has a record layout, linked to that of the nearest such body
around it, and every captured variable has a field of the layout of its body.  All else stays as it
was.

## Main definitions

* `Analysis.SameScopes` : tables that differ in the layouts, fields and types only.
* `Analysis.Linked` : the bodies up to some number have their layouts.
* `Analysis.LaidOut` : all bodies have their layouts, and all captured variables their fields.

## Main statements

* `Analysis.laidOut_withLayouts` : the tables with the layouts are laid out.
-/

namespace ScriptEngine

namespace Analysis

/-! ### What stays -/

/-- Tables that differ in the layouts of records and the fields and types of variables only. -/
structure SameScopes (a b : Analysis) : Prop where
  references : b.references = a.references
  withVariables : b.withVariables = a.withVariables
  vars_size : b.vars.size = a.vars.size
  bodies_size : b.bodies.size = a.bodies.size
  var : ∀ v, ∃ field valueType, b.var v = { a.var v with field, valueType }
  body : ∀ id, ∃ layout parentLayout, b.body id = { a.body id with layout, parentLayout }

namespace SameScopes

variable {a b c : Analysis}

theorem refl (a : Analysis) : a.SameScopes a :=
  ⟨rfl, rfl, rfl, rfl, fun _ => ⟨_, _, rfl⟩, fun _ => ⟨_, _, rfl⟩⟩

theorem trans (h : a.SameScopes b) (h' : b.SameScopes c) : a.SameScopes c where
  references := h'.references.trans h.references
  withVariables := h'.withVariables.trans h.withVariables
  vars_size := h'.vars_size.trans h.vars_size
  bodies_size := h'.bodies_size.trans h.bodies_size
  var v := by
    obtain ⟨f, t, hf⟩ := h.var v
    obtain ⟨f', t', hf'⟩ := h'.var v
    exact ⟨f', t', by rw [hf', hf]⟩
  body id := by
    obtain ⟨l, p, hb⟩ := h.body id
    obtain ⟨l', p', hc⟩ := h'.body id
    exact ⟨l', p', by rw [hc, hb]⟩

theorem closedOver (h : a.SameScopes b) (id : FunctionId) :
    (b.body id).closedOver = (a.body id).closedOver := by
  obtain ⟨_, _, hb⟩ := h.body id
  rw [hb]

theorem parent (h : a.SameScopes b) (id : FunctionId) :
    (b.body id).parent = (a.body id).parent := by
  obtain ⟨_, _, hb⟩ := h.body id
  rw [hb]

theorem fieldName (h : a.SameScopes b) (v : VariableId) : b.fieldName v = a.fieldName v := by
  obtain ⟨_, _, hv⟩ := h.var v
  unfold Analysis.fieldName
  rw [hv]

theorem capturingBody? (h : a.SameScopes b) (fuel : Nat) (id : Option FunctionId) :
    b.capturingBody? fuel id = a.capturingBody? fuel id := by
  induction fuel generalizing id with
  | zero => rfl
  | succ fuel ih =>
    cases id with
    | none => rfl
    | some id => simp only [Analysis.capturingBody?, h.closedOver, h.parent, ih]

theorem capturingAncestor? (h : a.SameScopes b) (id : FunctionId) :
    b.capturingAncestor? id = a.capturingAncestor? id := by
  unfold Analysis.capturingAncestor?
  rw [h.bodies_size, h.parent, h.capturingBody?]

/-- Changes of layouts in one body. -/
theorem modifyBody (a : Analysis) (id : FunctionId) (layouts : Array RecordLayout)
    {f : BodyInfo → BodyInfo}
    (hf : ∀ x : BodyInfo, ∃ layout parentLayout, f x = { x with layout, parentLayout }) :
    a.SameScopes { a with bodies := a.bodies.modify id f, layouts } := by
  refine ⟨rfl, rfl, rfl, by simp, fun _ => ⟨_, _, rfl⟩, fun i => ?_⟩
  change ∃ layout parentLayout, ({ a with bodies := a.bodies.modify id f } : Analysis).body i = _
  rcases eq_or_ne i id with rfl | hne
  · by_cases hlt : i < a.bodies.size
    · rw [a.body_modify_self hlt f]
      exact hf _
    · rw [a.body_modify_of_size_le (not_lt.mp hlt)]
      exact ⟨_, _, rfl⟩
  · rw [a.body_modify_of_ne hne f]
    exact ⟨_, _, rfl⟩

end SameScopes

variable {a : Analysis}

/-- A capturing body around others is one of those around. -/
theorem capturingBody?_lt (hs : a.Sound) {fuel : Nat} {q p : FunctionId}
    (h : a.capturingBody? fuel (some q) = some p) :
    p ≤ q ∧ (a.body p).closedOver ≠ [] := by
  induction fuel generalizing q with
  | zero => cases h
  | succ fuel ih =>
    unfold capturingBody? at h
    split at h
    · cases hq : (a.body q).parent with
      | none =>
        rw [hq] at h
        cases fuel <;> cases h
      | some r =>
        rw [hq] at h
        obtain ⟨hle, hne⟩ := ih h
        exact ⟨hle.trans ((hs.body q).parent r hq).le, hne⟩
    · rename_i hne
      cases h
      exact ⟨le_rfl, by simpa using hne⟩

theorem capturingAncestor?_lt (hs : a.Sound) {id p : FunctionId}
    (h : a.capturingAncestor? id = some p) : p < id ∧ (a.body p).closedOver ≠ [] := by
  unfold capturingAncestor? at h
  generalize a.bodies.size = fuel at h
  cases hid : (a.body id).parent with
  | none =>
    rw [hid] at h
    cases fuel <;> cases h
  | some q =>
    rw [hid] at h
    obtain ⟨hle, hne⟩ := capturingBody?_lt hs h
    exact ⟨hle.trans_lt ((hs.body id).parent q hid), hne⟩

/-! ### Layouts of bodies -/

/-- The bodies with a number below `n` have the layouts of their records. -/
structure Linked (a : Analysis) (n : Nat) (b : Analysis) : Prop where
  same : a.SameScopes b
  vars : b.vars = a.vars
  captured : ∀ id < n, (a.body id).closedOver ≠ [] → ∃ l, (b.body id).layout = some l ∧
    b.layouts[l]? = some ⟨id, b.enclosingLayout? id,
      sortedNames ((a.body id).closedOver.map a.fieldName)⟩
  none : ∀ id, n ≤ id ∨ (a.body id).closedOver = [] → (b.body id).layout = none
  below : ∀ id l, (b.body id).layout = some l → l < b.layouts.size
  increasing : ∀ id id' l l', (b.body id).layout = some l → (b.body id').layout = some l' →
    id < id' → l < l'

theorem linked_zero (hs : a.Sound) : a.Linked 0 a where
  same := .refl a
  vars := rfl
  captured := nofun
  none id _ := (hs.body id).layout
  below id l hl := by rw [(hs.body id).layout] at hl; cases hl
  increasing id _ l _ hl := by rw [(hs.body id).layout] at hl; cases hl

/-- The next body gets its layout. -/
theorem Linked.addLayout (hs : a.Sound) {n : Nat} {b : Analysis} (h : a.Linked n b)
    (hn : n < a.bodies.size) : a.Linked (n + 1) (b.addLayout n) := by
  unfold Analysis.addLayout
  rw [h.same.closedOver]
  dsimp only
  split
  · rename_i hempty
    rw [List.isEmpty_iff] at hempty
    refine { h with captured := fun id hid hne => ?_, none := fun id hid => h.none id ?_ }
    · rcases Nat.lt_succ_iff_lt_or_eq.mp hid with hlt | rfl
      · exact h.captured id hlt hne
      · exact absurd hempty hne
    · rcases hid with hle | hid
      · exact .inl (Nat.le_of_succ_le hle)
      · exact .inr hid
  · rename_i hne
    have hfields : (a.body n).closedOver.map b.fieldName = (a.body n).closedOver.map a.fieldName :=
      List.map_congr_left fun v _ => h.same.fieldName v
    rw [hfields]
    generalize hc : ({ b with
      layouts := b.layouts.push ⟨n, b.enclosingLayout? n,
        sortedNames ((a.body n).closedOver.map a.fieldName)⟩
      bodies := b.bodies.modify n fun x =>
        { x with layout := some b.layouts.size } } : Analysis) = c
    have hlayouts : c.layouts = b.layouts.push ⟨n, b.enclosingLayout? n,
        sortedNames ((a.body n).closedOver.map a.fieldName)⟩ := by rw [← hc]
    have hsame : b.SameScopes c := by
      rw [← hc]
      exact .modifyBody b n _ fun x => ⟨_, _, rfl⟩
    have hself : (c.body n).layout = some b.layouts.size := by
      rw [← hc]
      exact congrArg BodyInfo.layout (b.body_modify_self (h.same.bodies_size ▸ hn) _)
    have hother (id : FunctionId) (hid : id ≠ n) : (c.body id).layout = (b.body id).layout := by
      rw [← hc]
      exact congrArg BodyInfo.layout (b.body_modify_of_ne hid _)
    have henclosing (id : FunctionId) (hid : id ≤ n) :
        c.enclosingLayout? id = b.enclosingLayout? id := by
      unfold enclosingLayout?
      rw [hsame.capturingAncestor?]
      cases hp : b.capturingAncestor? id with
      | none => rfl
      | some p =>
        rw [h.same.capturingAncestor?] at hp
        exact hother p (Nat.ne_of_lt ((capturingAncestor?_lt hs hp).1.trans_le hid))
    refine
      { same := h.same.trans hsame
        vars := by rw [← hc]; exact h.vars
        captured := fun id hid hne' => ?_
        none := fun id hid => ?_
        below := fun id l hl => ?_
        increasing := fun id id' l l' hl hl' hlt => ?_ }
    · rcases Nat.lt_succ_iff_lt_or_eq.mp hid with hlt | rfl
      · obtain ⟨l, hl, hget⟩ := h.captured id hlt hne'
        refine ⟨l, by rw [hother id (Nat.ne_of_lt hlt), hl], ?_⟩
        rw [hlayouts, henclosing id hlt.le, Array.getElem?_push_lt (h.below id l hl),
          ← Array.getElem?_eq_getElem, hget]
      · refine ⟨b.layouts.size, hself, ?_⟩
        rw [hlayouts, henclosing id le_rfl, Array.getElem?_push_size]
    · have hid' : id ≠ n := by
        rintro rfl
        rcases hid with hle | hid
        · exact Nat.not_succ_le_self _ hle
        · simp [hid] at hne
      rw [hother id hid']
      exact h.none id (hid.imp_left Nat.le_of_succ_le)
    · rw [hlayouts, Array.size_push]
      rcases eq_or_ne id n with rfl | hid
      · rw [hself] at hl
        cases hl
        exact Nat.lt_succ_self _
      · exact (h.below id l (hother id hid ▸ hl)).trans (Nat.lt_succ_self _)
    · have hid : id ≠ n := by
        rintro rfl
        have := h.none id' (.inl hlt.le)
        rw [hother id' (Nat.ne_of_gt hlt), this] at hl'
        cases hl'
      rw [hother id hid] at hl
      rcases eq_or_ne id' n with rfl | hid'
      · rw [hself] at hl'
        cases hl'
        exact h.below id l hl
      · exact h.increasing id id' l l' hl (hother id' hid' ▸ hl') hlt

theorem linked_addLayouts (hs : a.Sound) {n : Nat} (hn : n ≤ a.bodies.size) :
    a.Linked n ((List.range n).foldl Analysis.addLayout a) := by
  induction n with
  | zero => exact linked_zero hs
  | succ n ih =>
    rw [List.range_succ, List.foldl_append]
    exact (ih (Nat.le_of_succ_le hn)).addLayout hs hn

theorem enclosingLayout?_of_same {b c : Analysis} (h : b.SameScopes c)
    (hlayout : ∀ id, (c.body id).layout = (b.body id).layout) (id : FunctionId) :
    c.enclosingLayout? id = b.enclosingLayout? id := by
  unfold enclosingLayout?
  rw [h.capturingAncestor?]
  simp only [hlayout]

/-- The bodies with a number below `n` know the layout that they take along. -/
structure Taken (b : Analysis) (n : Nat) (c : Analysis) : Prop where
  same : b.SameScopes c
  vars : c.vars = b.vars
  layouts : c.layouts = b.layouts
  layout : ∀ id, (c.body id).layout = (b.body id).layout
  parentLayout : ∀ id < n, (c.body id).parentLayout = b.enclosingLayout? id

theorem taken_linkParentLayouts (b : Analysis) {n : Nat} (hn : n ≤ b.bodies.size) :
    b.Taken n ((List.range n).foldl linkParentLayout b) := by
  induction n with
  | zero => exact ⟨.refl b, rfl, rfl, fun _ => rfl, nofun⟩
  | succ n ih =>
    have h := ih (Nat.le_of_succ_le hn)
    rw [List.range_succ, List.foldl_append]
    generalize (List.range n).foldl linkParentLayout b = c at h
    have hsame : c.SameScopes (c.linkParentLayout n) := .modifyBody c n _ fun x => ⟨_, _, rfl⟩
    have hself := c.body_modify_self (h.same.bodies_size ▸ hn) fun x =>
      { x with parentLayout := c.enclosingLayout? n }
    have hother {id : FunctionId} (hid : id ≠ n) := c.body_modify_of_ne hid fun x =>
      { x with parentLayout := c.enclosingLayout? n }
    refine ⟨h.same.trans hsame, h.vars, h.layouts, fun id => ?_, fun id hid => ?_⟩
    · rcases eq_or_ne id n with rfl | hne
      · exact (congrArg BodyInfo.layout hself).trans (h.layout id)
      · exact (congrArg BodyInfo.layout (hother hne)).trans (h.layout id)
    · rcases Nat.lt_succ_iff_lt_or_eq.mp hid with hlt | rfl
      · rw [← h.parentLayout id hlt]
        exact congrArg BodyInfo.parentLayout (hother (Nat.ne_of_lt hlt))
      · rw [← enclosingLayout?_of_same h.same h.layout]
        exact congrArg BodyInfo.parentLayout hself

/-! ### Fields of variables -/

/-- The field that a captured variable gets. -/
def fieldOf (c : Analysis) (v : VariableId) : Option RecordField :=
  (c.body (c.var v).body).layout.bind fun l =>
    ((c.layout l).fieldIndex? (c.fieldName v)).map fun index => ⟨l, index⟩

/-- The variables that `S` holds of have their fields. -/
structure Placed (c : Analysis) (S : VariableId → Prop) (d : Analysis) : Prop where
  same : c.SameScopes d
  bodies : d.bodies = c.bodies
  layouts : d.layouts = c.layouts
  inside : ∀ v, S v → (d.var v).field = c.fieldOf v
  outside : ∀ v, ¬ S v → (d.var v).field = none

section

variable {c d : Analysis} {S S' : VariableId → Prop}

theorem Placed.of_iff (h : c.Placed S d) (hS : ∀ v, S v ↔ S' v) : c.Placed S' d :=
  { h with
    inside := fun v hv => h.inside v ((hS v).mpr hv)
    outside := fun v hv => h.outside v fun hS' => hv ((hS v).mp hS') }

theorem Placed.placeVariable (h : c.Placed S d) {v : VariableId} (hv : v < c.vars.size)
    {l : LayoutId} (hl : (c.body (c.var v).body).layout = some l) {index : Nat}
    (hindex : (c.layout l).fieldIndex? (c.fieldName v) = some index) :
    c.Placed (fun w => S w ∨ w = v) (placeVariable l d v) := by
  have hlayout : d.layout l = c.layout l := by
    unfold Analysis.layout
    rw [h.layouts]
  unfold Analysis.placeVariable
  rw [hlayout, h.same.fieldName, hindex]
  dsimp only
  have hself := d.var_modify_self (h.same.vars_size ▸ hv) fun x =>
      { x with field := some ⟨l, index⟩ }
  have hother {w : VariableId} (hw : w ≠ v) :=
    d.var_modify_of_ne hw fun x => { x with field := some ⟨l, index⟩ }
  have hsame : d.SameScopes { d with
      vars := d.vars.modify v fun x => { x with field := some ⟨l, index⟩ } } := by
    refine ⟨rfl, rfl, by simp, rfl, fun w => ?_, fun _ => ⟨_, _, rfl⟩⟩
    rcases eq_or_ne w v with rfl | hw
    · exact ⟨_, _, hself⟩
    · exact ⟨_, _, hother hw⟩
  refine ⟨h.same.trans hsame, h.bodies, h.layouts, fun w hw => ?_, fun w hw => ?_⟩
  · rcases eq_or_ne w v with rfl | hne
    · rw [hself]
      simp [fieldOf, hl, hindex]
    · rw [hother hne]
      exact h.inside w (hw.resolve_right hne)
  · rw [hother fun heq => hw (.inr heq)]
    exact h.outside w fun hS => hw (.inl hS)

/-- All variables captured from a body get their fields. -/
theorem Placed.placeAll (h : c.Placed S d) {l : LayoutId} {vs : List VariableId}
    (hvs : ∀ v ∈ vs, v < c.vars.size ∧ (c.body (c.var v).body).layout = some l ∧
      ∃ index, (c.layout l).fieldIndex? (c.fieldName v) = some index) :
    c.Placed (fun w => S w ∨ w ∈ vs) (vs.foldl (Analysis.placeVariable l) d) := by
  induction vs generalizing S d with
  | nil => exact h.of_iff fun w => by simp
  | cons v rest ih =>
    obtain ⟨hlt, hl, index, hindex⟩ := hvs v List.mem_cons_self
    exact (ih (h.placeVariable hlt hl hindex) fun w hw => hvs w (List.mem_cons_of_mem _ hw)).of_iff
      fun w => by simp [or_assoc]

end

end Analysis

/-! ### Sorted names -/

theorem mem_insertName {name x : String} {names : List String} :
    x ∈ insertName name names ↔ x = name ∨ x ∈ names := by
  induction names with
  | nil => simp [insertName]
  | cons s rest ih =>
    unfold insertName
    split
    · rename_i heq
      rw [beq_iff_eq] at heq
      subst heq
      simp
    · split
      · simp
      · simp only [List.mem_cons, ih]
        tauto

theorem mem_sortedNames {x : String} {names : List String} : x ∈ sortedNames names ↔ x ∈ names := by
  unfold sortedNames
  induction names with
  | nil => simp
  | cons s rest ih => rw [List.foldr_cons, mem_insertName, ih, List.mem_cons]

theorem RecordLayout.exists_fieldIndex? {l : RecordLayout} {name : String} (h : name ∈ l.fields) :
    ∃ index, l.fieldIndex? name = some index := by
  unfold fieldIndex?
  refine Option.isSome_iff_exists.mp ?_
  rw [List.findIdx?_isSome]
  exact List.any_eq_true.mpr ⟨name, h, beq_self_eq_true name⟩

theorem RecordLayout.fieldIndex?_lt {l : RecordLayout} {name : String} {index : Nat}
    (h : l.fieldIndex? name = some index) : index < l.fields.length :=
  (List.findIdx?_eq_some_iff_getElem.mp h).1

namespace Analysis

variable {a : Analysis}

/-- Every body with captured variables has a layout and every captured variable a field of it. -/
structure LaidOut (a b : Analysis) : Prop where
  same : a.SameScopes b
  captured : ∀ id < a.bodies.size, (a.body id).closedOver ≠ [] → ∃ l, (b.body id).layout = some l ∧
    b.layout l = ⟨id, b.enclosingLayout? id, sortedNames ((a.body id).closedOver.map a.fieldName)⟩
  none : ∀ id, (a.body id).closedOver = [] → (b.body id).layout = none
  below : ∀ id l, (b.body id).layout = some l → l < b.layouts.size
  increasing : ∀ id id' l l', (b.body id).layout = some l → (b.body id').layout = some l' →
    id < id' → l < l'
  parentLayout : ∀ id < a.bodies.size, (b.body id).parentLayout = b.enclosingLayout? id
  placed : ∀ id < a.bodies.size, ∀ v ∈ (a.body id).closedOver, ∃ l index,
    (b.body id).layout = some l ∧
    (b.layout l).fieldIndex? (a.fieldName v) = some index ∧ (b.var v).field = some ⟨l, index⟩
  unplaced : ∀ v, v ∉ (a.body (a.var v).body).closedOver → (b.var v).field = Option.none

/-- The types of variables do not matter for the layouts. -/
theorem LaidOut.retype {b : Analysis} (h : a.LaidOut b) {vars : Array Variable}
    (hsize : vars.size = b.vars.size)
    (hvar : ∀ v, ∃ valueType, Analysis.var { b with vars } v = { b.var v with valueType }) :
    a.LaidOut { b with vars } := by
  have hfield (v : VariableId) : (Analysis.var { b with vars } v).field = (b.var v).field := by
    obtain ⟨_, hv⟩ := hvar v
    rw [hv]
  have hsame : b.SameScopes { b with vars } :=
    ⟨rfl, rfl, hsize, rfl, fun v => ⟨_, hvar v⟩, fun _ => ⟨_, _, rfl⟩⟩
  have henclosing := enclosingLayout?_of_same hsame fun _ => rfl
  refine
    { h with
      same := h.same.trans hsame
      captured := fun id hid hne => ?_
      parentLayout := fun id hid => ?_
      placed := fun id hid v hv => ?_
      unplaced := fun v hv => ?_ }
  · rw [henclosing]
    exact h.captured id hid hne
  · rw [henclosing]
    exact h.parentLayout id hid
  · rw [hfield]
    exact h.placed id hid v hv
  · rw [hfield]
    exact h.unplaced v hv

/-- The variables captured from the bodies with a number below `n` get their fields. -/
theorem placed_placeVariables {c : Analysis} (hfield : ∀ v, (c.var v).field = none)
    (hown : ∀ id < c.bodies.size, ∀ v ∈ (c.body id).closedOver, v < c.vars.size ∧
      (c.var v).body = id ∧
      ∃ l index, (c.body id).layout = some l ∧
        (c.layout l).fieldIndex? (c.fieldName v) = some index)
    {n : Nat} (hn : n ≤ c.bodies.size) :
    c.Placed (fun v => ∃ id < n, v ∈ (c.body id).closedOver)
      ((List.range n).foldl placeVariables c) := by
  induction n with
  | zero => exact ⟨.refl c, rfl, rfl, by simp, fun v _ => hfield v⟩
  | succ n ih =>
    have h := ih (Nat.le_of_succ_le hn)
    rw [List.range_succ, List.foldl_append]
    generalize (List.range n).foldl placeVariables c = d at h
    have hbody : d.body n = c.body n := by
      unfold Analysis.body
      rw [h.bodies]
    have hiff (v : VariableId) :
        ((∃ id < n, v ∈ (c.body id).closedOver) ∨ v ∈ (c.body n).closedOver) ↔
        ∃ id < n + 1, v ∈ (c.body id).closedOver := by
      constructor
      · rintro (⟨id, hid, hv⟩ | hv)
        · exact ⟨id, Nat.lt_succ_of_lt hid, hv⟩
        · exact ⟨n, Nat.lt_succ_self n, hv⟩
      · rintro ⟨id, hid, hv⟩
        rcases Nat.lt_succ_iff_lt_or_eq.mp hid with hlt | rfl
        · exact .inl ⟨id, hlt, hv⟩
        · exact .inr hv
    change c.Placed _ (d.placeVariables n)
    unfold placeVariables
    rw [hbody]
    split
    · rename_i l hl
      refine (h.placeAll fun v hv => ?_).of_iff hiff
      obtain ⟨hlt, hv', l', index, hl', hindex⟩ := hown n hn v hv
      rw [hl] at hl'
      cases hl'
      exact ⟨hlt, hv' ▸ hl, index, hindex⟩
    · rename_i hl
      refine h.of_iff fun v => ?_
      rw [← hiff, or_iff_left]
      intro hv
      obtain ⟨-, -, l, -, hl', -⟩ := hown n hn v hv
      rw [hl] at hl'
      cases hl'

/-- The tables with the layouts of all records are laid out. -/
theorem laidOut_withLayouts (hs : a.Sound) : a.LaidOut a.withLayouts := by
  have hlinked := linked_addLayouts hs le_rfl
  unfold withLayouts
  dsimp only
  generalize (List.range a.bodies.size).foldl addLayout a = b at hlinked
  rw [← hlinked.same.bodies_size]
  have htaken := b.taken_linkParentLayouts le_rfl
  generalize (List.range b.bodies.size).foldl linkParentLayout b = c at htaken
  rw [← htaken.same.bodies_size]
  have hsame := hlinked.same.trans htaken.same
  have hcaptured (id : FunctionId) (hid : id < a.bodies.size) (hne : (a.body id).closedOver ≠ []) :
      ∃ l, (c.body id).layout = some l ∧ c.layout l = ⟨id, b.enclosingLayout? id,
        sortedNames ((a.body id).closedOver.map a.fieldName)⟩ := by
    obtain ⟨l, hl, hget⟩ := hlinked.captured id hid hne
    refine ⟨l, by rw [htaken.layout, hl], ?_⟩
    unfold Analysis.layout
    rw [htaken.layouts, hget]
    rfl
  have hvar (v : VariableId) : c.var v = a.var v := by
    unfold Analysis.var
    rw [htaken.vars, hlinked.vars]
  have hindex (id : FunctionId) (hid : id < a.bodies.size) (v : VariableId)
      (hv : v ∈ (a.body id).closedOver) : ∃ l index, (c.body id).layout = some l ∧
        (c.layout l).fieldIndex? (a.fieldName v) = some index := by
    obtain ⟨l, hl, hlayout⟩ := hcaptured id hid (List.ne_nil_of_mem hv)
    have hmem : a.fieldName v ∈ (c.layout l).fields := by
      rw [hlayout]
      exact mem_sortedNames.mpr (List.mem_map_of_mem hv)
    obtain ⟨index, hindex⟩ := RecordLayout.exists_fieldIndex? hmem
    exact ⟨l, index, hl, hindex⟩
  have hplaced : c.Placed (fun v => ∃ id < c.bodies.size, v ∈ (c.body id).closedOver)
      ((List.range c.bodies.size).foldl placeVariables c) := by
    refine placed_placeVariables (fun v => ?_) (fun id hid v hv => ?_) le_rfl
    · rw [hvar]
      by_cases hlt : v < a.vars.size
      · exact (hs.var v hlt).field
      · unfold Analysis.var
        rw [Array.getElem?_eq_none (not_lt.mp hlt)]
        rfl
    · rw [hsame.closedOver] at hv
      rw [hsame.bodies_size] at hid
      rw [hsame.vars_size, hsame.fieldName, hvar]
      have howns := (hs.body id).closedOver v hv
      exact ⟨howns.bound, howns.body, hindex id hid v hv⟩
  generalize (List.range c.bodies.size).foldl placeVariables c = d at hplaced
  have hbody (id : FunctionId) : d.body id = c.body id := by
    unfold Analysis.body
    rw [hplaced.bodies]
  have hlayout (l : LayoutId) : d.layout l = c.layout l := by
    unfold Analysis.layout
    rw [hplaced.layouts]
  have henclosing (id : FunctionId) : d.enclosingLayout? id = b.enclosingLayout? id := by
    rw [enclosingLayout?_of_same (htaken.same.trans hplaced.same)]
    intro id
    rw [hbody, htaken.layout]
  refine
    { same := hsame.trans hplaced.same
      captured := fun id hid hne => ?_
      none := fun id hempty => ?_
      below := fun id l hl => ?_
      increasing := fun id id' l l' hl hl' hlt => ?_
      parentLayout := fun id hid => ?_
      placed := fun id hid v hv => ?_
      unplaced := fun v hv => ?_ }
  · simp only [hbody, hlayout, henclosing]
    exact hcaptured id hid hne
  · rw [hbody, htaken.layout]
    exact hlinked.none id (.inr hempty)
  · rw [hbody, htaken.layout] at hl
    rw [hplaced.layouts, htaken.layouts]
    exact hlinked.below id l hl
  · rw [hbody, htaken.layout] at hl hl'
    exact hlinked.increasing id id' l l' hl hl' hlt
  · rw [hbody, henclosing]
    exact htaken.parentLayout id (hlinked.same.bodies_size ▸ hid)
  · obtain ⟨l, index, hl, hi⟩ := hindex id hid v hv
    refine ⟨l, index, by rw [hbody, hl], by rw [hlayout, hi], ?_⟩
    rw [hplaced.inside v ⟨id, hsame.bodies_size ▸ hid, hsame.closedOver id ▸ hv⟩]
    unfold fieldOf
    rw [hvar, ((hs.body id).closedOver v hv).body, hl, hsame.fieldName, Option.bind_some, hi]
    rfl
  · refine hplaced.outside v ?_
    rintro ⟨id, -, hmem⟩
    rw [hsame.closedOver] at hmem
    rw [((hs.body id).closedOver v hmem).body] at hv
    exact hv hmem

end Analysis

end ScriptEngine
