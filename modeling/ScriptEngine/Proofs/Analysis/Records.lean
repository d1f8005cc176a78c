import Mathlib.Logic.Relation
import ScriptEngine.Proofs.Analysis.Capture
import ScriptEngine.Proofs.Analysis.Storage
import ScriptEngine.Proofs.Script.Spelling

/-!
# Records of a script

The layouts of all records that a script needs.  A body with captured variables has one layout,
linked to that of the nearest such body around it, and the captured variables of a body share no
field, apart from its parameters, which share the field of the arguments object.

The layouts can be made on demand, each after those of the bodies around it.  As bodies are visited
in the order of their numbers, this ends, and makes the same layouts.

## Main definitions

* `Analysis.Encloses`, `Analysis.NearestCapturing` : the bodies around a body.
* `Analysis.ensureLayout`, `Analysis.buildLayouts` : the layouts, made on demand.
* `Analysis.RecordsLinked` : what the layouts and fields of a script are.

## Main statements

* `Analysis.buildLayouts_eq` : layouts made on demand are those made in order.
* `Program.records_linked` : the records of a script.
-/

namespace ScriptEngine

/-! ### Sorted names -/

theorem ascending_insertName {name : String} {names : List String} (h : names.Pairwise (· < ·)) :
    (insertName name names).Pairwise (· < ·) := by
  induction names with
  | nil => exact List.pairwise_singleton _ _
  | cons s rest ih =>
    obtain ⟨hs, hrest⟩ := List.pairwise_cons.mp h
    unfold insertName
    split
    · exact h
    · rename_i hne
      split
      · rename_i hlt
        refine List.pairwise_cons.mpr ⟨fun t ht => ?_, h⟩
        rcases List.mem_cons.mp ht with rfl | ht
        · exact hlt
        · exact String.lt_trans hlt (hs t ht)
      · rename_i hle
        refine List.pairwise_cons.mpr ⟨fun t ht => ?_, ih hrest⟩
        rcases mem_insertName.mp ht with rfl | ht
        · by_contra hge
          exact hne
            (beq_iff_eq.mpr (String.le_antisymm (String.not_lt.mp hge) (String.not_lt.mp hle)))
        · exact hs t ht

/-- The distinct names of a list ascend strictly. -/
theorem ascending_sortedNames (names : List String) : (sortedNames names).Pairwise (· < ·) := by
  unfold sortedNames
  induction names with
  | nil => exact .nil
  | cons name rest ih => exact ascending_insertName ih

/-- In a list that ascends strictly, the index of a name is the only one. -/
theorem RecordLayout.getElem?_fields_iff {l : RecordLayout} (h : l.fields.Pairwise (· < ·))
    {name : String} {index : Nat} (hindex : l.fieldIndex? name = some index) (i : Nat) :
    l.fields[i]? = some name ↔ i = index := by
  obtain ⟨hlt, heq, -⟩ := List.findIdx?_eq_some_iff_getElem.mp hindex
  have heq : l.fields[index]? = some name := by
    rw [List.getElem?_eq_getElem hlt, beq_iff_eq.mp heq]
  have hnodup : l.fields.Nodup := by
    refine h.imp fun {s t} hlt hst => ?_
    rw [hst] at hlt
    exact String.lt_irrefl t hlt
  exact ⟨fun hi => ((List.getElem?_inj hlt hnodup).mp (heq.trans hi.symm)).symm, fun hi => hi ▸ heq⟩

namespace Analysis

/-! ### Bodies around a body -/

/-- One body stands directly in another one. -/
def StandsIn (a : Analysis) (q id : FunctionId) : Prop :=
  (a.body id).parent = some q

/-- One body encloses another one strictly. -/
def Encloses (a : Analysis) : FunctionId → FunctionId → Prop :=
  Relation.TransGen a.StandsIn

/-- The nearest body around another one that has captured variables, if there is one. -/
def NearestCapturing (a : Analysis) (id : FunctionId) : Option FunctionId → Prop
  | some p => a.Encloses p id ∧ (a.body p).closedOver ≠ [] ∧
    ∀ q, a.Encloses q id → (a.body q).closedOver ≠ [] → q = p ∨ a.Encloses q p
  | none => ∀ q, a.Encloses q id → (a.body q).closedOver = []

section

variable {a : Analysis}

/-- From a body on outwards, the first one with captured variables is found. -/
theorem capturingBody?_nearest (hparent : ∀ id q, (a.body id).parent = some q → q < id) {fuel : Nat}
    {q : FunctionId} (hq : q < fuel) :
    match a.capturingBody? fuel (some q) with
    | some p => Relation.ReflTransGen a.StandsIn p q ∧ (a.body p).closedOver ≠ [] ∧
      ∀ r, Relation.ReflTransGen a.StandsIn r q → (a.body r).closedOver ≠ [] →
        r = p ∨ a.Encloses r p
    | none => ∀ r, Relation.ReflTransGen a.StandsIn r q → (a.body r).closedOver = [] := by
  induction fuel generalizing q with
  | zero => exact absurd hq (Nat.not_lt_zero q)
  | succ fuel ih =>
    unfold capturingBody?
    by_cases hempty : (a.body q).closedOver = []
    · rw [if_pos (List.isEmpty_iff.mpr hempty)]
      cases hs : (a.body q).parent with
      | none =>
        have hnone : a.capturingBody? fuel none = none := by cases fuel <;> rfl
        rw [hnone]
        intro r hr
        rcases hr.cases_tail with rfl | ⟨s, -, hstands⟩
        · exact hempty
        · cases hs.symm.trans hstands
      | some s =>
        have hlt := hparent q s hs
        have houter {r : FunctionId} (hr : Relation.ReflTransGen a.StandsIn r q) :
            r = q ∨ Relation.ReflTransGen a.StandsIn r s := by
          rcases hr.cases_tail with rfl | ⟨t, hrt, hstands⟩
          · exact .inl rfl
          · cases hs.symm.trans hstands
            exact .inr hrt
        have := ih (hlt.trans_le (Nat.le_of_lt_succ hq))
        split at this
        · rename_i p heq
          obtain ⟨hreach, hne, hnearest⟩ := this
          refine ⟨hreach.tail hs, hne, fun r hr hcaptures => ?_⟩
          rcases houter hr with rfl | hr
          · exact absurd hempty hcaptures
          · exact hnearest r hr hcaptures
        · intro r hr
          rcases houter hr with rfl | hr
          · exact hempty
          · exact this r hr
    · rw [if_neg (by simpa using hempty)]
      refine ⟨.refl, hempty, fun r hr _ => ?_⟩
      rcases Relation.reflTransGen_iff_eq_or_transGen.mp hr with heq | hr
      · exact .inl heq.symm
      · exact .inr hr

/-- The nearest body around another one that has captured variables is found. -/
theorem nearestCapturing_capturingAncestor? (hparent : ∀ id q, (a.body id).parent = some q → q < id)
    {id : FunctionId} (hid : id < a.bodies.size) :
    a.NearestCapturing id (a.capturingAncestor? id) := by
  unfold capturingAncestor?
  cases hq : (a.body id).parent with
  | none =>
    have hnone : a.capturingBody? a.bodies.size none = none := by cases a.bodies.size <;> rfl
    rw [hnone]
    intro q hencloses
    obtain ⟨s, -, hstands⟩ := Relation.TransGen.tail'_iff.mp hencloses
    cases hq.symm.trans hstands
  | some q =>
    have hencloses {r : FunctionId} : a.Encloses r id ↔ Relation.ReflTransGen a.StandsIn r q := by
      refine ⟨fun h => ?_, fun h => Relation.TransGen.tail'_iff.mpr ⟨q, h, hq⟩⟩
      obtain ⟨s, hs, hstands⟩ := Relation.TransGen.tail'_iff.mp h
      cases hq.symm.trans hstands
      exact hs
    have := capturingBody?_nearest hparent ((hparent id q hq).trans hid)
    split at this
    · rename_i p heq
      rw [heq]
      exact ⟨hencloses.mpr this.1, this.2.1, fun r hr => this.2.2 r (hencloses.mp hr)⟩
    · rename_i heq
      rw [heq]
      exact fun r hr => this r (hencloses.mp hr)

end

/-! ### Layouts on demand -/

mutual

/-- The layout of a body with captured variables, made after those of the bodies around it.  The
calls that are open at once are bounded. -/
def ensureLayout : Nat → FunctionId → Analysis → Option (Option LayoutId × Analysis)
  | 0, _, _ => none
  | bound + 1, id, a =>
    if (a.body id).closedOver.isEmpty then some (none, a)
    else
      match (a.body id).layout with
      | some l => some (some l, a)
      | none => (nearestLayout bound (a.body id).parent a).map fun (parent, a) =>
        let fields := sortedNames ((a.body id).closedOver.map a.fieldName)
        (some a.layouts.size,
          { a with
            layouts := a.layouts.push ⟨id, parent, fields⟩
            bodies := a.bodies.modify id fun b => { b with layout := some a.layouts.size } })

/-- The layout of the nearest body with captured variables, from a body on outwards. -/
def nearestLayout : Nat → Option FunctionId → Analysis → Option (Option LayoutId × Analysis)
  | _, none, a => some (none, a)
  | 0, some _, _ => none
  | bound + 1, some p, a =>
    match ensureLayout bound p a with
    | none => none
    | some (some l, a) => some (some l, a)
    | some (none, a) => nearestLayout bound (a.body p).parent a

end

/-- The tables with the layouts of all records, made on demand. -/
def buildLayouts (bound : Nat) (a : Analysis) : Option Analysis := do
  let ids := List.range a.bodies.size
  let pending := ids.filter fun id => !(a.body id).closedOver.isEmpty
  let a ← pending.foldlM (fun a id => (ensureLayout bound id a).map Prod.snd) a
  let a ← ids.foldlM (fun a id => (nearestLayout bound (a.body id).parent a).map fun (parent, a) =>
    { a with bodies := a.bodies.modify id fun b => { b with parentLayout := parent } }) a
  return ids.foldl placeVariables a

section

variable {a b : Analysis}

/-- If the bodies around have their layouts, then no layout is made for them. -/
theorem nearestLayout_eq (hparent : ∀ id q, (b.body id).parent = some q → q < id) {n : Nat}
    (hlayout : ∀ id < n, (b.body id).closedOver ≠ [] → ∃ l, (b.body id).layout = some l)
    {bound fuel : Nat} {q : FunctionId} (hq : q < n) (hbound : q + 2 ≤ bound) (hfuel : q < fuel) :
    nearestLayout bound (some q) b =
      some ((b.capturingBody? fuel (some q)).bind fun p => (b.body p).layout, b) := by
  induction fuel generalizing bound q with
  | zero => exact absurd hfuel (Nat.not_lt_zero q)
  | succ fuel ih =>
    obtain ⟨bound, rfl⟩ := Nat.exists_eq_add_of_le' hbound
    rw [show bound + (q + 2) = (bound + q + 1) + 1 from rfl, nearestLayout, ensureLayout,
      capturingBody?]
    by_cases hempty : (b.body q).closedOver.isEmpty = true
    · simp only [hempty, if_true]
      cases hs : (b.body q).parent with
      | none =>
        have hnone : b.capturingBody? fuel none = none := by cases fuel <;> rfl
        rw [hnone]
        rfl
      | some s =>
        have hlt := hparent q s hs
        refine ih (hlt.trans hq) ?_ (hlt.trans_le (Nat.le_of_lt_succ hfuel))
        exact (Nat.add_le_add_right hlt 1).trans (by rw [Nat.add_assoc]; exact Nat.le_add_left _ _)
    · obtain ⟨l, hl⟩ := hlayout q hq (by simpa using hempty)
      simp [hempty, hl]

/-- What a body takes along is found. -/
theorem nearestLayout_parent (hparent : ∀ id q, (b.body id).parent = some q → q < id)
    {id : FunctionId} (hid : id < b.bodies.size)
    (hlayout : ∀ q < id, (b.body q).closedOver ≠ [] → ∃ l, (b.body q).layout = some l) {bound : Nat}
    (hbound : id + 1 ≤ bound) :
    nearestLayout bound (b.body id).parent b = some (b.enclosingLayout? id, b) := by
  unfold enclosingLayout? capturingAncestor?
  cases hq : (b.body id).parent with
  | none =>
    have hnone : b.capturingBody? b.bodies.size none = none := by cases b.bodies.size <;> rfl
    rw [hnone, nearestLayout]
    rfl
  | some q =>
    have hlt := hparent id q hq
    exact nearestLayout_eq hparent hlayout hlt ((Nat.add_le_add_right hlt 1).trans hbound)
      (hlt.trans hid)

/-- The layout of the next body is made after those of the bodies around it. -/
theorem ensureLayout_eq (hs : a.Sound) {n : Nat} (h : a.Linked n b) (hn : n < a.bodies.size)
    (hne : (a.body n).closedOver ≠ []) {bound : Nat} (hbound : n + 2 ≤ bound) :
    (ensureLayout bound n b).map Prod.snd = some (b.addLayout n) := by
  have hparent (id q : FunctionId) (hq : (b.body id).parent = some q) : q < id :=
    (hs.body id).parent q (h.same.parent id ▸ hq)
  have hlayout (q : FunctionId) (hq : q < n) (hcaptures : (b.body q).closedOver ≠ []) :
      ∃ l, (b.body q).layout = some l := by
    obtain ⟨l, hl, -⟩ := h.captured q hq (h.same.closedOver q ▸ hcaptures)
    exact ⟨l, hl⟩
  obtain ⟨bound, rfl⟩ := Nat.exists_eq_add_of_le' hbound
  have hnearest := nearestLayout_parent hparent (h.same.bodies_size ▸ hn) hlayout
    (Nat.le_add_left (n + 1) bound)
  have hempty : ¬ (b.body n).closedOver.isEmpty = true := by
    rw [h.same.closedOver, List.isEmpty_iff]
    exact hne
  change (ensureLayout (bound + (n + 1) + 1) n b).map Prod.snd = _
  rw [ensureLayout, if_neg hempty, h.none n (.inl le_rfl), addLayout, if_neg hempty]
  dsimp only
  rw [hnearest]
  rfl

/-- The layouts of the bodies up to some number, made on demand. -/
theorem ensureLayouts_eq (hs : a.Sound) {bound : Nat} (hbound : a.bodies.size + 1 ≤ bound) {n : Nat}
    (hn : n ≤ a.bodies.size) :
    ((List.range n).filter fun id => !(a.body id).closedOver.isEmpty).foldlM
      (fun b id => (ensureLayout bound id b).map Prod.snd) a =
        some ((List.range n).foldl addLayout a) := by
  induction n with
  | zero => rfl
  | succ n ih =>
    have hlinked := linked_addLayouts hs (Nat.le_of_succ_le hn)
    rw [List.range_succ, List.filter_append, List.foldlM_append, List.foldl_append,
      ih (Nat.le_of_succ_le hn), Option.bind_eq_bind, Option.bind_some]
    generalize (List.range n).foldl addLayout a = b at hlinked
    rw [List.foldl_cons, List.foldl_nil]
    by_cases hempty : (a.body n).closedOver = []
    · have hsame : b.addLayout n = b := if_pos (by rw [hlinked.same.closedOver, hempty]; rfl)
      simp [hempty, hsame]
    · have hstep := ensureLayout_eq hs hlinked hn hempty ((Nat.add_le_add_right hn 1).trans hbound)
      simp [hempty, hstep]

/-- What the bodies up to some number take along, found on demand. -/
theorem nearestLayouts_eq (hparent : ∀ id q, (b.body id).parent = some q → q < id)
    (hlayout : ∀ q, (b.body q).closedOver ≠ [] → ∃ l, (b.body q).layout = some l) {bound : Nat}
    (hbound : b.bodies.size ≤ bound) {n : Nat} (hn : n ≤ b.bodies.size) :
    (List.range n).foldlM
    (fun c id => (nearestLayout bound (c.body id).parent c).map fun (parent, c) =>
      { c with bodies := c.bodies.modify id fun x => { x with parentLayout := parent } }) b =
        some ((List.range n).foldl linkParentLayout b) := by
  induction n with
  | zero => rfl
  | succ n ih =>
    have htaken := b.taken_linkParentLayouts (Nat.le_of_succ_le hn)
    rw [List.range_succ, List.foldlM_append, List.foldl_append, ih (Nat.le_of_succ_le hn),
      Option.bind_eq_bind, Option.bind_some]
    generalize (List.range n).foldl linkParentLayout b = c at htaken
    have hnearest : nearestLayout bound (c.body n).parent c = some (c.enclosingLayout? n, c) := by
      refine nearestLayout_parent (fun id q hq => hparent id q (htaken.same.parent id ▸ hq))
        (htaken.same.bodies_size ▸ hn) (fun q _ hne => ?_) (hn.trans hbound)
      rw [htaken.layout]
      exact hlayout q (htaken.same.closedOver q ▸ hne)
    rw [List.foldlM_cons, hnearest]
    rfl

/-- Layouts made on demand are those made in the order of the bodies, so that making them ends. -/
theorem buildLayouts_eq (hs : a.Sound) {bound : Nat} (hbound : a.bodies.size + 1 ≤ bound) :
    a.buildLayouts bound = some a.withLayouts := by
  have hlinked := linked_addLayouts hs le_rfl
  unfold buildLayouts withLayouts
  dsimp only
  rw [ensureLayouts_eq hs hbound le_rfl, Option.bind_eq_bind, Option.bind_some]
  generalize (List.range a.bodies.size).foldl addLayout a = b at hlinked
  rw [← hlinked.same.bodies_size, nearestLayouts_eq, Option.bind_some]
  · rfl
  · exact fun id q hq => (hs.body id).parent q (hlinked.same.parent id ▸ hq)
  · intro q hne
    rw [hlinked.same.closedOver] at hne
    have hq : q < a.bodies.size := by
      by_contra hle
      rw [a.body_of_size_le (not_lt.mp hle)] at hne
      exact hne rfl
    obtain ⟨l, hl, -⟩ := hlinked.captured q hq hne
    exact ⟨l, hl⟩
  · rw [hlinked.same.bodies_size]
    exact Nat.le_of_succ_le hbound
  · exact le_rfl

end

/-! ### Layouts of a script -/

section

variable {a b : Analysis}

theorem placeVariables_bodies (a : Analysis) (id : FunctionId) :
    (a.placeVariables id).bodies = a.bodies ∧ (a.placeVariables id).layouts = a.layouts := by
  have hone (l : LayoutId) (b : Analysis) (v : VariableId) :
      (placeVariable l b v).bodies = b.bodies ∧ (placeVariable l b v).layouts = b.layouts := by
    unfold placeVariable
    split <;> exact ⟨rfl, rfl⟩
  unfold placeVariables
  split
  · rename_i l hl
    clear hl
    generalize (a.body id).closedOver = vs
    induction vs generalizing a with
    | nil => exact ⟨rfl, rfl⟩
    | cons v rest ih =>
      obtain ⟨hbodies, hlayouts⟩ := ih (placeVariable l a v)
      exact ⟨hbodies.trans (hone l a v).1, hlayouts.trans (hone l a v).2⟩
  · exact ⟨rfl, rfl⟩

/-- Every layout is that of a body. -/
def LayoutsOwned (a : Analysis) : Prop :=
  ∀ l < a.layouts.size, (a.body (a.layout l).body).layout = some l

theorem LayoutsOwned.addLayout (h : b.LayoutsOwned) {n : FunctionId} (hn : n < b.bodies.size)
    (hnone : (b.body n).layout = none) : (b.addLayout n).LayoutsOwned := by
  unfold Analysis.addLayout
  dsimp only
  split
  · exact h
  · intro l hl
    rw [Array.size_push] at hl
    rcases Nat.lt_succ_iff_lt_or_eq.mp hl with hlt | rfl
    · have hlayout := h l hlt
      have hne : (b.layout l).body ≠ n := fun heq => by
        rw [heq, hnone] at hlayout
        cases hlayout
      have hold (x : RecordLayout) : ((b.layouts.push x)[l]?.getD default) = b.layout l := by
        rw [Array.getElem?_push_lt hlt, ← Array.getElem?_eq_getElem]
        rfl
      simp only [layout, hold]
      exact (congrArg BodyInfo.layout (b.body_modify_of_ne hne _)).trans hlayout
    · simp only [layout, Array.getElem?_push_size, Option.getD_some]
      exact congrArg BodyInfo.layout (b.body_modify_self hn _)

/-- There are no other layouts than those of the bodies with captured variables. -/
theorem layoutsOwned_withLayouts (hs : a.Sound) (hempty : a.layouts = #[]) :
    a.withLayouts.LayoutsOwned := by
  have howned {n : Nat} (hn : n ≤ a.bodies.size) :
      ((List.range n).foldl Analysis.addLayout a).LayoutsOwned := by
    induction n with
    | zero =>
      intro l hl
      change l < a.layouts.size at hl
      rw [hempty] at hl
      exact absurd hl (Nat.not_lt_zero l)
    | succ n ih =>
      have hlinked := linked_addLayouts hs (Nat.le_of_succ_le hn)
      rw [List.range_succ, List.foldl_append]
      exact (ih (Nat.le_of_succ_le hn)).addLayout (hlinked.same.bodies_size ▸ hn)
        (hlinked.none n (.inl le_rfl))
  have hlinked := linked_addLayouts hs le_rfl
  unfold withLayouts
  dsimp only
  replace howned := howned le_rfl
  generalize (List.range a.bodies.size).foldl Analysis.addLayout a = b at howned hlinked
  have htaken := b.taken_linkParentLayouts (n := a.bodies.size) hlinked.same.bodies_size.ge
  generalize (List.range a.bodies.size).foldl linkParentLayout b = c at htaken
  have hplaced (ids : List FunctionId) (d : Analysis) :
      (ids.foldl placeVariables d).bodies = d.bodies ∧ (ids.foldl placeVariables d).layouts =
        d.layouts := by
    induction ids generalizing d with
    | nil => exact ⟨rfl, rfl⟩
    | cons id rest ih =>
      obtain ⟨hbodies, hlayouts⟩ := ih (d.placeVariables id)
      exact ⟨hbodies.trans (d.placeVariables_bodies id).1,
        hlayouts.trans (d.placeVariables_bodies id).2⟩
  obtain ⟨hbodies, hlayouts⟩ := hplaced (List.range a.bodies.size) c
  intro l hl
  have hbody (id : FunctionId) : ((List.range a.bodies.size).foldl placeVariables c).body id =
      c.body id := by
    unfold body
    rw [hbodies]
  have hlayout : ((List.range a.bodies.size).foldl placeVariables c).layout l = b.layout l := by
    unfold layout
    rw [hlayouts, htaken.layouts]
  rw [hbody, hlayout, htaken.layout]
  rw [hlayouts, htaken.layouts] at hl
  exact howned l hl

end

end Analysis

/-! ### Names of captured variables -/

/-- A name that is made up is not that of an identifier. -/
theorem MadeUp.not_isName {n : Nat} {x : String} (h : MadeUp n x) : ¬ IsName x := by
  rintro ⟨c, cs, rfl, hc⟩
  have hhead := h.head?
  rw [String.toList_ofList] at hhead
  cases hhead
  exact absurd hc (by decide)

section

variable {a : Analysis} {origin : VariableId → NodeId} {env : Environment}

/-- Every body around a place but the script itself is that of a function. -/
theorem Environment.Reads.opens {scopes : List Scope} (h : Environment.Reads a origin scopes env) :
    ∀ id ∈ env.bodies, id = 0 ∨ ∃ env' f, f.id = id ∧ a.Opens env' f := by
  induction h with
  | script => exact fun id hid => .inl (List.mem_singleton.mp hid)
  | @function f _ env opens _ ih =>
    intro id hid
    rcases List.mem_cons.mp hid with rfl | hid
    · exact .inr ⟨env, f, rfl, opens⟩
    · exact ih id hid
  | «catch» _ _ _ _ ih =>
    rw [Resolve.bodies_openScope]
    exact ih
  | «with» _ _ _ _ ih =>
    rw [Resolve.bodies_openScope]
    exact ih

/-- What holds the object of a `with` statement is not declared by the source. -/
theorem Environment.Valid.synthetic_of_find (h : env.Valid a) (name : String) (outer : Bool) :
    ∀ w ∈ (env.find a name outer).withs, w ∈ (a.body (a.var w).body).synthetic := by
  have hwith {body : FunctionId} {entries : List ScopeEntry} (valid : ∀ e ∈ entries, e.Valid a body)
      {found : Option VariableId} {withs : List VariableId}
      (hsearch : searchEntries name entries = (found, withs)) :
      ∀ w ∈ withs, w ∈ (a.body (a.var w).body).synthetic := by
    intro w hw
    have hvalid := valid _ (holders_of_searchEntries hsearch w hw)
    have howner : (a.var w).body = body := hvalid.owner
    rw [howner]
    exact hvalid.synthetic
  have hlevel {body : FunctionId} {entries : List ScopeEntry} {rest : Environment} {o : Bool}
      (valid : ∀ e ∈ entries, e.Valid a body)
      (hrest : ∀ w ∈ (rest.find a name true).withs, w ∈ (a.body (a.var w).body).synthetic) :
      ∀ w ∈ (Environment.find a name o (⟨body, entries⟩ :: rest)).withs,
        w ∈ (a.body (a.var w).body).synthetic := by
    unfold find
    split
    · rename_i hsearch
      exact hwith valid hsearch
    · rename_i hsearch
      dsimp only
      split
      · exact hwith valid hsearch
      · exact List.forall_mem_append.mpr ⟨hwith valid hsearch, hrest⟩
  induction h generalizing outer with
  | script _ valid => exact hlevel valid fun w hw => absurd hw List.not_mem_nil
  | inside _ _ _ _ valid _ ih => exact hlevel valid (ih true)

/-- If code in a nested function uses a variable that a body declares, then it does so under the
name of the variable. -/
theorem Environment.Denotes.name_of_uses {name : String} {v w : VariableId}
    (h : env.Denotes a name v) (hs : a.Sound) (henv : env.Valid a) (huses : a.Uses v w)
    (hkind : (a.var w).kind ≠ .withScope)
    (hdeclared : (a.body (a.var w).body).declared.get? (a.var w).name = some w) :
    (a.var w).name = name := by
  obtain ⟨target, outer, withs, hfind, -, hv⟩ := h
  obtain ⟨hname, ⟨id, -, howns⟩, -⟩ := (henv.of_find hs hfind).1 target outer rfl
  rcases hv with ⟨-, rfl⟩ | ⟨-, hguards⟩
  · rcases huses with rfl | ⟨hscope, -⟩
    · exact hname
    · have := declarableKinds_subset id howns.kind
      simp [hscope] at this
  · rcases huses with rfl | ⟨-, hw | hw⟩
    · rw [hguards.var] at hkind
      exact absurd rfl hkind
    · rw [hguards.var] at hw
      cases hw
      exact hname
    · have hmem : w ∈ withs := by
        rw [hguards.var] at hw
        simpa using hw
      have hsynthetic : w ∈ (a.body (a.var w).body).synthetic := by
        refine henv.synthetic_of_find name false w ?_
        rw [hfind]
        exact hmem
      exact absurd hdeclared ((hs.body _).apart w hsynthetic _)

namespace Program.Scoped

variable {p : Program} {source : String} {number : VariableId → Option Nat} {id : FunctionId}
  {v w : VariableId}

/-- What a body declares and a nested function uses is called like an identifier, and it is a
parameter or the `arguments` of the function if it is called so. -/
theorem name_of_captured (h : p.Scoped a origin) (hp : Program.parse source = .ok p)
    (hv : v ∈ (a.body id).closedOver)
    (hdeclared : (a.body (a.var v).body).declared.get? (a.var v).name = some v) :
    IsName (a.var v).name ∧ ((a.var v).kind = .local → (a.var v).name ≠ argumentsField) := by
  have howns := (h.sound.body id).closedOver v hv
  have hkind : (a.var v).kind ≠ .withScope := fun hkind => by
    have := howns.kind
    simp [hkind] at this
  obtain ⟨o, ho, i, u, hi, hu, huses, -, hpath⟩ := h.captures id v hv
  obtain ⟨env, hreads, hresolved⟩ := h.occurrences o ho
  have hname := Program.isName_of_parse hp o ho
  rw [hi] at hresolved
  unfold Occurrence.IsNamed at hname
  rw [hi] at hname
  obtain ⟨u', hu', hdenotes⟩ := hresolved
  obtain rfl := Option.some.inj (hu.symm.trans hu')
  refine ⟨hdenotes.name_of_uses h.sound hreads.valid huses hkind hdeclared ▸ hname,
    fun hlocal hcalled => ?_⟩
  rw [← hreads.bodies] at hpath
  rcases hreads.opens _ hpath with hzero | ⟨env', f, hf, hopens⟩
  · have := ((h.sound.body _).declared _ v hdeclared).1.kind
    rw [hzero, hlocal] at this
    exact absurd this (by decide)
  · rw [← hf] at hdeclared
    have := hopens.kinds _ v hdeclared
    rw [hlocal, hcalled] at this
    unfold Func.bindingKind at this
    split at this
    · cases this
    · rw [if_pos (show argumentsField = "arguments" from rfl)] at this
      cases this

/-- A captured local variable is stored under a name made up with its number, or under its own name,
which is that of an identifier other than `arguments` and the body knows it by. -/
theorem storageName_of_captured (h : p.Scoped a origin) (hp : Program.parse source = .ok p)
    (hs : a.Stored number) (hv : v ∈ (a.body id).closedOver) (hlocal : (a.var v).kind = .local) :
    (∃ n, number v = some n ∧ MadeUp n (a.var v).storageName) ∨
      IsName (a.var v).storageName ∧ (a.var v).storageName ≠ argumentsField ∧
        (a.body id).declared.get? (a.var v).storageName = some v := by
  have howns := (h.sound.body id).closedOver v hv
  cases hnumber : number v with
  | some n => exact .inl ⟨n, rfl, (hs.numbered v n hnumber).2⟩
  | none =>
    have hid : id < a.bodies.size := by
      by_contra hle
      rw [a.body_of_size_le (not_lt.mp hle)] at hv
      cases hv
    have hdeclared := hs.declared v howns.bound hnumber hlocal (howns.body ▸ hid)
    obtain ⟨hname, hne⟩ := h.name_of_captured hp hv hdeclared
    rw [howns.body] at hdeclared
    rw [hs.own v howns.bound hnumber]
    exact .inr ⟨hname, hne hlocal, hdeclared⟩

/-- No captured local variable is stored in the field of the arguments object. -/
theorem storageName_ne_arguments (h : p.Scoped a origin) (hp : Program.parse source = .ok p)
    (hs : a.Stored number) (hv : v ∈ (a.body id).closedOver) (hlocal : (a.var v).kind = .local) :
    (a.var v).storageName ≠ argumentsField := by
  rcases h.storageName_of_captured hp hs hv hlocal with ⟨n, -, hmade⟩ | ⟨-, hne, -⟩
  · intro heq
    have := hmade.head?
    rw [heq] at this
    exact absurd this (by decide)
  · exact hne

/-- Captured local variables of a body are stored under different names. -/
theorem storageName_inj (h : p.Scoped a origin) (hp : Program.parse source = .ok p)
    (hs : a.Stored number) (hv : v ∈ (a.body id).closedOver) (hw : w ∈ (a.body id).closedOver)
    (hlocal : (a.var v).kind = .local) (hlocal' : (a.var w).kind = .local)
    (heq : (a.var v).storageName = (a.var w).storageName) : v = w := by
  rcases h.storageName_of_captured hp hs hv hlocal with ⟨m, hm, hmade⟩ | ⟨hname, -, hdeclared⟩ <;>
    rcases h.storageName_of_captured hp hs hw hlocal' with ⟨n, hn, hmade'⟩ | ⟨hname', -, hdeclared'⟩
  · rw [heq] at hmade
    obtain rfl := hmade.unique hmade'
    exact hs.injective v w m hm hn
  · exact absurd hname' (heq ▸ hmade).not_isName
  · exact absurd hname (heq ▸ hmade').not_isName
  · rw [heq, hdeclared'] at hdeclared
    exact (Option.some.inj hdeclared).symm

/-- Two captured variables of a body share a field just if both are parameters. -/
theorem fieldName_eq_iff (h : p.Scoped a origin) (hp : Program.parse source = .ok p)
    (hs : a.Stored number) (hv : v ∈ (a.body id).closedOver) (hw : w ∈ (a.body id).closedOver)
    (hne : v ≠ w) : a.fieldName v = a.fieldName w ↔
      (a.var v).kind ∈ [.parameter, .arguments] ∧ (a.var w).kind ∈ [.parameter, .arguments] := by
  have hkind {u : VariableId} (hu : u ∈ (a.body id).closedOver) :
      (a.var u).kind = .parameter ∨ (a.var u).kind = .local := by
    simpa using ((h.sound.body id).closedOver u hu).kind
  unfold Analysis.fieldName
  rcases hkind hv with hv' | hv' <;> rcases hkind hw with hw' | hw' <;> simp only [hv', hw']
  · decide
  · simpa using (h.storageName_ne_arguments hp hs hw hw').symm
  · simpa using h.storageName_ne_arguments hp hs hv hv'
  · simpa using fun heq => hne (h.storageName_inj hp hs hv hw hv' hw' heq)

end Program.Scoped

end

/-! ### The records of a script -/

/-- What the layouts and fields of a script are. -/
structure Analysis.RecordsLinked (a : Analysis) : Prop where
  /-- The bodies with captured variables have a layout each. -/
  layout : ∀ id, (a.body id).layout.isSome = true ↔ (a.body id).closedOver ≠ []
  /-- There are no other layouts. -/
  owned : ∀ id l, (a.body id).layout = some l ↔ l < a.layouts.size ∧ (a.layout l).body = id
  /-- A record is linked to that of the nearest body around that has one. -/
  parent : ∀ id l, (a.body id).layout = some l → ∃ q, a.NearestCapturing id q ∧
    (a.layout l).parent = q.bind fun q => (a.body q).layout
  /-- So is what a function takes along. -/
  parentLayout : ∀ id < a.bodies.size, ∃ q, a.NearestCapturing id q ∧
    (a.body id).parentLayout = q.bind fun q => (a.body q).layout
  parent_lt : ∀ l < a.layouts.size, ∀ m, (a.layout l).parent = some m → m < l
  ascending : ∀ l < a.layouts.size, (a.layout l).fields.Pairwise (· < ·)
  captured : ∀ v, (a.var v).isCaptured = true ↔ v ∈ (a.body (a.var v).body).closedOver
  /-- A captured variable has the one field with its name, in the layout of its own body. -/
  field : ∀ id, ∀ v ∈ (a.body id).closedOver, (a.var v).body = id ∧ ∃ l index,
    (a.body id).layout = some l ∧ (a.var v).field = some ⟨l, index⟩ ∧
      ∀ i, (a.layout l).fields[i]? = some (a.fieldName v) ↔ i = index
  /-- Only parameters share their field. -/
  shared : ∀ id, ∀ v ∈ (a.body id).closedOver, ∀ w ∈ (a.body id).closedOver, v ≠ w →
    ((a.var v).field = (a.var w).field ↔
      (a.var v).kind ∈ [.parameter, .arguments] ∧ (a.var w).kind ∈ [.parameter, .arguments])
  /-- Local variables stay out of the field of the arguments object. -/
  apart : ∀ id, ∀ v ∈ (a.body id).closedOver, (a.var v).kind ∉ [.parameter, .arguments] →
    a.fieldName v ≠ argumentsField

namespace Analysis.LaidOut

variable {r a : Analysis} {id : FunctionId}

theorem kind_var (ha : r.LaidOut a) (v : VariableId) : (a.var v).kind = (r.var v).kind := by
  obtain ⟨_, _, hv⟩ := ha.same.var v
  rw [hv]

theorem body_var (ha : r.LaidOut a) (v : VariableId) : (a.var v).body = (r.var v).body := by
  obtain ⟨_, _, hv⟩ := ha.same.var v
  rw [hv]

theorem lt_of_captured (hne : (r.body id).closedOver ≠ []) : id < r.bodies.size := by
  by_contra hle
  rw [r.body_of_size_le (not_lt.mp hle)] at hne
  exact hne rfl

/-- The layout of a body has a field for each name of its captured variables. -/
theorem layout_eq (ha : r.LaidOut a) {l : LayoutId} (hl : (a.body id).layout = some l) :
    id < r.bodies.size ∧
      a.layout l = ⟨id, a.enclosingLayout? id,
        sortedNames ((r.body id).closedOver.map r.fieldName)⟩ := by
  have hne : (r.body id).closedOver ≠ [] := fun hempty => by
    rw [ha.none id hempty] at hl
    cases hl
  obtain ⟨l', hl', hget⟩ := ha.captured id (lt_of_captured hne) hne
  obtain rfl := Option.some.inj (hl.symm.trans hl')
  exact ⟨lt_of_captured hne, hget⟩

theorem isSome_layout (ha : r.LaidOut a) :
    (a.body id).layout.isSome = true ↔ (a.body id).closedOver ≠ [] := by
  rw [ha.same.closedOver]
  constructor
  · intro hl hempty
    rw [ha.none id hempty] at hl
    cases hl
  · intro hne
    obtain ⟨l, hl, -⟩ := ha.captured id (lt_of_captured hne) hne
    rw [hl]
    rfl

/-- A captured variable has the one field with its name. -/
theorem exists_field (ha : r.LaidOut a) {v : VariableId} (hv : v ∈ (a.body id).closedOver) :
    ∃ l index, (a.body id).layout = some l ∧ (a.var v).field = some ⟨l, index⟩ ∧
      ∀ i, (a.layout l).fields[i]? = some (a.fieldName v) ↔ i = index := by
  rw [ha.same.closedOver] at hv
  obtain ⟨l, index, hl, hindex, hplaced⟩ :=
    ha.placed id (lt_of_captured (List.ne_nil_of_mem hv)) v hv
  refine ⟨l, index, hl, hplaced, ?_⟩
  rw [ha.same.fieldName]
  refine RecordLayout.getElem?_fields_iff ?_ hindex
  rw [(ha.layout_eq hl).2]
  exact ascending_sortedNames _

/-- Variables of a body share a field just if they share its name. -/
theorem field_eq_iff (ha : r.LaidOut a) {v w : VariableId} (hv : v ∈ (a.body id).closedOver)
    (hw : w ∈ (a.body id).closedOver) :
    (a.var v).field = (a.var w).field ↔ a.fieldName v = a.fieldName w := by
  obtain ⟨l, i, hl, hi, hunique⟩ := ha.exists_field hv
  obtain ⟨l', j, hl', hj, hunique'⟩ := ha.exists_field hw
  obtain rfl := Option.some.inj (hl.symm.trans hl')
  rw [hi, hj]
  constructor
  · rintro ⟨⟩
    exact Option.some.inj (((hunique i).mpr rfl).symm.trans ((hunique' i).mpr rfl))
  · intro heq
    rw [(hunique' i).mp (heq ▸ (hunique i).mpr rfl)]

end Analysis.LaidOut

/-- Tables in which all names are resolved get linked records. -/
theorem Program.Scoped.recordsLinked {r a : Analysis} {origin : VariableId → NodeId} {p : Program}
    {source : String} {number : VariableId → Option Nat} (h : p.Scoped r origin)
    (hp : Program.parse source = .ok p) (hs : r.Stored number) (ha : r.LaidOut a)
    (howned : a.LayoutsOwned) :
    a.RecordsLinked := by
  have hparent (id q : FunctionId) (hq : (a.body id).parent = some q) : q < id :=
    (h.sound.body id).parent q (ha.same.parent id ▸ hq)
  have hnearest {id : FunctionId} (hid : id < r.bodies.size) : ∃ q, a.NearestCapturing id q ∧
      a.enclosingLayout? id = q.bind fun q => (a.body q).layout :=
    ⟨_, Analysis.nearestCapturing_capturingAncestor? hparent (ha.same.bodies_size ▸ hid), rfl⟩
  refine
    { layout := fun id => ha.isSome_layout
      owned := fun id l => ⟨fun hl => ⟨ha.below id l hl, by rw [(ha.layout_eq hl).2]⟩, ?_⟩
      parent := fun id l hl => ?_
      parentLayout := fun id hid => ?_
      parent_lt := fun l hl m hm => ?_
      ascending := fun l hl => ?_
      captured := fun v => ?_
      field := fun id v hv => ⟨?_, ha.exists_field hv⟩
      shared := fun id v hv w hw hne => ?_
      apart := fun id v hv hlocal => ?_ }
  · rintro ⟨hl, rfl⟩
    exact howned l hl
  · obtain ⟨hid, hget⟩ := ha.layout_eq hl
    rw [hget]
    exact hnearest hid
  · rw [ha.same.bodies_size] at hid
    rw [ha.parentLayout id hid]
    exact hnearest hid
  · -- the layout belongs to a body inside of the one that its parent belongs to
    have hown := howned l hl
    generalize (a.layout l).body = id at hown
    obtain ⟨hid, hget⟩ := ha.layout_eq hown
    rw [hget] at hm
    obtain ⟨q, hq, hm⟩ := Option.bind_eq_some_iff.mp hm
    rw [ha.same.capturingAncestor?] at hq
    exact ha.increasing q id m l hm hown (Analysis.capturingAncestor?_lt h.sound hq).1
  · rw [(ha.layout_eq (howned l hl)).2]
    exact ascending_sortedNames _
  · rw [ha.isCaptured_iff_closedOver, ha.body_var, ha.same.closedOver]
  · rw [ha.body_var]
    rw [ha.same.closedOver] at hv
    exact ((h.sound.body id).closedOver v hv).body
  · rw [ha.field_eq_iff hv hw, ha.kind_var, ha.kind_var, ha.same.fieldName, ha.same.fieldName]
    rw [ha.same.closedOver] at hv hw
    exact h.fieldName_eq_iff hp hs hv hw hne
  · rw [ha.kind_var] at hlocal
    rw [ha.same.closedOver] at hv
    have hlocal : (r.var v).kind = .local := by
      have := ((h.sound.body id).closedOver v hv).kind
      simp only [List.mem_cons, List.not_mem_nil, or_false] at this hlocal
      exact this.resolve_left fun hparameter => hlocal (.inl hparameter)
    rw [ha.same.fieldName]
    unfold Analysis.fieldName
    rw [hlocal]
    exact h.storageName_ne_arguments hp hs hv hlocal

/-- Making the layouts of a script on demand ends, with records that are linked as its bodies
are. -/
theorem Program.records_linked {source : String} {p : Program} {strict : Bool} {r : Analysis}
    (hp : Program.parse source = .ok p) (hr : Resolve.program strict p = .ok r) :
    (∀ bound ≥ r.bodies.size + 1, r.buildLayouts bound = some r.withLayouts) ∧
      r.withLayouts.RecordsLinked := by
  obtain ⟨origin, hscoped⟩ := Resolve.scoped_of_program (Program.wellNumbered_of_parse hp) hr
  obtain ⟨number, hs⟩ := Resolve.stored_of_program hr
  exact ⟨fun bound hbound => Analysis.buildLayouts_eq hscoped.sound hbound,
    hscoped.recordsLinked hp hs (Analysis.laidOut_withLayouts hscoped.sound)
      (Analysis.layoutsOwned_withLayouts hscoped.sound hs.layouts)⟩

/-- The tables of a script come from those in which all names are resolved, and they have no other
layouts than those of its bodies. -/
theorem Program.exists_scoped_of_analyze {p : Program} {source : String} {options : CompileOptions}
    {a : Analysis} (hp : Program.parse source = .ok p) (h : analyze p options = .ok a) :
    ∃ r origin number, p.Scoped r origin ∧ r.Stored number ∧ r.LaidOut a ∧ a.LayoutsOwned := by
  unfold analyze at h
  cases hr : Resolve.program options.strict p with
  | error e =>
    rw [hr] at h
    cases h
  | ok r =>
    rw [hr] at h
    obtain ⟨origin, hscoped⟩ := Resolve.scoped_of_program (Program.wellNumbered_of_parse hp) hr
    obtain ⟨number, hs⟩ := Resolve.stored_of_program hr
    have howned := Analysis.layoutsOwned_withLayouts hscoped.sound hs.layouts
    have hlaid := Analysis.laidOut_withLayouts hscoped.sound
    refine ⟨r, origin, number, hscoped, hs, ?_⟩
    cases h
    dsimp only
    split
    · exact ⟨hlaid.retype (by simp) (Analysis.var_setTypes _ _), howned⟩
    · exact ⟨hlaid.retype (by simp) (Analysis.var_untyped _), howned⟩

/-- Some property of a source in which all names can be resolved, by computation. -/
theorem Program.exists_resolved (source : String) (strict : Bool) (q : Analysis → Bool)
    (h : ((Program.parse source).toOption.any fun p => (Resolve.program strict p).toOption.any q) =
      true) :
    ∃ p r, Program.parse source = .ok p ∧ Resolve.program strict p = .ok r ∧ q r = true := by
  obtain ⟨p, hp, h⟩ := Program.exists_parse source _ h
  obtain ⟨r, hr, h⟩ := exists_of_toOption_any h
  exact ⟨p, r, hp, hr, h⟩

/-- The parameters of a function share a field, and the parameter of a `catch` clause has its
own. -/
theorem Program.records_linked_catch : ∃ p r,
    Program.parse
      "function f(x, y) { try { } catch (e) { return function () { return x + y + e; }; } }" =
      .ok p ∧ Resolve.program false p = .ok r ∧
    r.withLayouts.layouts.toList.map (·.fields) = [["%catch1", "arguments"]] ∧
    r.buildLayouts 4 = some r.withLayouts ∧ r.withLayouts.RecordsLinked := by
  obtain ⟨p, r, hp, hr, h⟩ := Program.exists_resolved
    "function f(x, y) { try { } catch (e) { return function () { return x + y + e; }; } }" false
    (fun r => r.bodies.size == 3 && r.withLayouts.layouts.toList.map (·.fields) ==
      [["%catch1", "arguments"]])
    (by decide +kernel)
  obtain ⟨hsize, hfields⟩ := Bool.and_eq_true_iff.mp h
  obtain ⟨hbuilt, hlinked⟩ := Program.records_linked hp hr
  refine ⟨p, r, hp, hr, beq_iff_eq.mp hfields, hbuilt 4 ?_, hlinked⟩
  rw [beq_iff_eq.mp hsize]

end ScriptEngine
