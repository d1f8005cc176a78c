import ScriptEngine.Proofs.Analysis.Capture
import ScriptEngine.Proofs.Compile.Stability

/-!
# Lookups of variables

All variables that compilation looks up can be accessed from the body that is compiled, through as
many links as there are records between that body and theirs.
-/

namespace ScriptEngine

/-! ### The chain of records -/

namespace Analysis

/-- The layouts of the records of several bodies. -/
def layoutsOf (a : Analysis) (bodies : List FunctionId) : List LayoutId :=
  bodies.filterMap fun id => (a.body id).layout

theorem layoutsOf_of_none {a : Analysis} {id : FunctionId} (h : (a.body id).layout = .none)
    (bodies : List FunctionId) : a.layoutsOf (id :: bodies) = a.layoutsOf bodies :=
  List.filterMap_cons_none h

theorem layoutsOf_of_some {a : Analysis} {id : FunctionId} {l : LayoutId}
    (h : (a.body id).layout = some l) (bodies : List FunctionId) :
    a.layoutsOf (id :: bodies) = l :: a.layoutsOf bodies :=
  List.filterMap_cons_some h

theorem capturingBody?_none (a : Analysis) (fuel : Nat) : a.capturingBody? fuel none = none := by
  cases fuel <;> rfl

theorem layoutChain_none (a : Analysis) (fuel : Nat) : a.layoutChain fuel none = [] := by
  cases fuel <;> rfl

variable {r a : Analysis} {env : Environment}

theorem LaidOut.layout_eq_none (h : r.LaidOut a) {id : FunctionId} (hid : id < r.bodies.size) :
    (a.body id).layout = .none ↔ (r.body id).closedOver.isEmpty = true := by
  rw [List.isEmpty_iff]
  refine ⟨fun hlayout => ?_, h.none id⟩
  by_contra hne
  obtain ⟨l, hl, -⟩ := h.captured id hid hne
  rw [hlayout] at hl
  cases hl

/-- One step outwards in the search for the nearest record. -/
theorem LaidOut.capturingBody?_succ (h : r.LaidOut a) {id : FunctionId} (hid : id < r.bodies.size)
    {fuel : Nat} {bodies : List FunctionId}
    (hparent : ((r.capturingBody? fuel (r.body id).parent).bind fun id => (a.body id).layout) =
      (a.layoutsOf bodies).head?) :
    ((r.capturingBody? (fuel + 1) (some id)).bind fun id => (a.body id).layout) =
      (a.layoutsOf (id :: bodies)).head? := by
  unfold Analysis.capturingBody?
  split
  · rename_i hempty
    rw [hparent, layoutsOf_of_none ((h.layout_eq_none hid).mpr hempty)]
  · rename_i hne
    obtain ⟨l, hl⟩ := Option.ne_none_iff_exists'.mp (mt (h.layout_eq_none hid).mp hne)
    rw [layoutsOf_of_some hl, Option.bind_some, hl]
    rfl

/-- The nearest record from a body outwards is that of the first body around that has one. -/
theorem LaidOut.capturingBody?_eq (h : r.LaidOut a) (hroot : (r.body 0).parent = .none)
    (henv : env.Valid r) {fuel : Nat} (hfuel : Resolve.current env < fuel) :
    ((r.capturingBody? fuel (some (Resolve.current env))).bind fun id => (a.body id).layout) =
      (a.layoutsOf env.bodies).head? := by
  obtain ⟨fuel, rfl⟩ := Nat.exists_eq_succ_of_ne_zero (Nat.ne_of_gt (Nat.zero_lt_of_lt hfuel))
  induction henv generalizing fuel with
  | script bound =>
    refine h.capturingBody?_succ bound ?_
    rw [hroot, capturingBody?_none]
    rfl
  | inside bound above parent _ _ _ ih =>
    have hlt := above.trans_le (Nat.le_of_lt_succ hfuel)
    obtain ⟨fuel, rfl⟩ := Nat.exists_eq_succ_of_ne_zero (Nat.ne_of_gt (Nat.zero_lt_of_lt hlt))
    exact h.capturingBody?_succ bound (parent.symm ▸ ih fuel hlt)

/-- The nearest record around a body. -/
theorem LaidOut.enclosingLayout?_eq (h : r.LaidOut a) (hroot : (r.body 0).parent = .none)
    (henv : env.Valid r) :
    a.enclosingLayout? (Resolve.current env) = (a.layoutsOf env.bodies.tail).head? := by
  unfold enclosingLayout?
  rw [h.same.capturingAncestor?]
  unfold capturingAncestor?
  cases henv with
  | script =>
    change (r.capturingBody? _ (r.body 0).parent).bind _ = _
    rw [hroot, capturingBody?_none]
    rfl
  | @inside body entries env bound above parent _ _ outer =>
    change (r.capturingBody? _ (r.body body).parent).bind _ = _
    rw [parent]
    exact h.capturingBody?_eq hroot outer (above.trans bound)

/-- The record of a body is linked to the nearest one around the body. -/
theorem LaidOut.parent_eq (h : r.LaidOut a) (hroot : (r.body 0).parent = .none) (henv : env.Valid r)
    {l : LayoutId} (hl : (a.body (Resolve.current env)).layout = some l) :
    (a.layout l).parent = (a.layoutsOf env.bodies.tail).head? := by
  have hbound := henv.bodies_lt_size _ henv.current_mem
  have hne : (r.body (Resolve.current env)).closedOver ≠ [] := by
    intro hempty
    rw [h.none _ hempty] at hl
    cases hl
  obtain ⟨l', hl', hlayout⟩ := h.captured _ hbound hne
  rw [hl] at hl'
  cases hl'
  rw [hlayout]
  exact h.enclosingLayout?_eq hroot henv

/-- From the nearest record on, the links lead to the records of all bodies around. -/
theorem LaidOut.layoutChain_eq (h : r.LaidOut a) (hroot : (r.body 0).parent = .none)
    (henv : env.Valid r) {fuel : Nat} (hfuel : ∀ l ∈ (a.layoutsOf env.bodies).head?, l < fuel) :
    a.layoutChain fuel (a.layoutsOf env.bodies).head? = a.layoutsOf env.bodies := by
  have hstep {env : Environment} (henv : env.Valid r) {fuel : Nat} {bodies : List FunctionId}
      (hbodies : env.bodies = Resolve.current env :: bodies)
      (hfuel : ∀ l ∈ (a.layoutsOf env.bodies).head?, l < fuel)
      (ih : ∀ {fuel : Nat}, (∀ l ∈ (a.layoutsOf bodies).head?, l < fuel) →
        a.layoutChain fuel (a.layoutsOf bodies).head? = a.layoutsOf bodies)
      (hlt : ∀ id ∈ bodies, id < Resolve.current env) :
      a.layoutChain fuel (a.layoutsOf env.bodies).head? = a.layoutsOf env.bodies := by
    have hparent {l : LayoutId} := h.parent_eq hroot henv (l := l)
    rw [hbodies] at hfuel hparent ⊢
    cases hl : (a.body (Resolve.current env)).layout with
    | none =>
      rw [layoutsOf_of_none hl] at hfuel ⊢
      exact ih hfuel
    | some l =>
      rw [layoutsOf_of_some hl] at hfuel ⊢
      obtain ⟨fuel, rfl⟩ := Nat.exists_eq_succ_of_ne_zero
        (Nat.ne_of_gt (Nat.zero_lt_of_lt (hfuel l rfl)))
      change l :: a.layoutChain fuel (a.layout l).parent = l :: _
      rw [hparent hl]
      refine congrArg (l :: ·) (ih fun l' hl' => ?_)
      obtain ⟨id, hid, hlayout⟩ := List.mem_filterMap.mp (List.mem_of_mem_head? hl')
      exact (h.increasing id _ l' l hlayout hl (hlt id hid)).trans_le
        (Nat.le_of_lt_succ (hfuel l rfl))
  induction henv generalizing fuel with
  | script bound valid =>
    exact hstep (.script bound valid) (show _ = _ :: [] from rfl) hfuel
      (fun _ => layoutChain_none _ _) nofun
  | inside bound above parent arguments valid outer ih =>
    exact hstep (.inside bound above parent arguments valid outer) rfl hfuel ih fun id hid =>
      (outer.bodies_le id hid).trans_lt above

/-- The records that code of a body can reach are those of the bodies around. -/
theorem LaidOut.chain_ofBody (h : r.LaidOut a) (hroot : (r.body 0).parent = .none)
    (henv : env.Valid r) (isProgram : Bool) :
    (BodyContext.ofBody a (Resolve.current env) isProgram).chain = a.layoutsOf env.bodies := by
  have hbound := henv.bodies_lt_size _ henv.current_mem
  have hhead : (a.body (Resolve.current env)).layout.or
      (a.body (Resolve.current env)).parentLayout =
      (a.layoutsOf env.bodies).head? := by
    rw [h.parentLayout _ hbound, h.enclosingLayout?_eq hroot henv]
    have hbodies : env.bodies = Resolve.current env :: env.bodies.tail := by cases henv <;> rfl
    cases hl : (a.body (Resolve.current env)).layout with
    | none => rw [hbodies, layoutsOf_of_none hl]; rfl
    | some l => rw [hbodies, layoutsOf_of_some hl]; rfl
  unfold BodyContext.ofBody
  dsimp only
  rw [hhead]
  refine h.layoutChain_eq hroot henv fun l hl => ?_
  obtain ⟨id, -, hlayout⟩ := List.mem_filterMap.mp (List.mem_of_mem_head? hl)
  exact h.below id l hlayout

/-- How many of the bodies from a place outwards, up to a given body, have records. -/
def recordsBelow (a : Analysis) (path : List FunctionId) (body : FunctionId) : Nat :=
  (path.takeWhile (· != body)).countP fun id => (a.body id).layout.isSome

end Analysis

/-- The position of what one element gives among what all of them give. -/
theorem findIdx?_filterMap {α : Type} [DecidableEq α] {f : α → Option LayoutId} {x : α}
    {y : LayoutId} (hy : f x = some y) {xs : List α} (hx : x ∈ xs)
    (hinj : ∀ z ∈ xs, f z = some y → z = x) :
    (xs.filterMap f).findIdx? (· == y) =
      some ((xs.takeWhile (· != x)).countP fun z => (f z).isSome) := by
  induction xs with
  | nil => cases hx
  | cons z rest ih =>
    rcases eq_or_ne z x with rfl | hne
    · rw [List.filterMap_cons_some hy, List.takeWhile_cons_of_neg (by simp)]
      simp [List.findIdx?_cons]
    · have hrest := ih ((List.mem_cons.mp hx).resolve_left hne.symm) fun w hw =>
        hinj w (List.mem_cons_of_mem _ hw)
      rw [List.takeWhile_cons_of_pos (by simpa using hne), List.countP_cons]
      cases hz : f z with
      | none =>
        rw [List.filterMap_cons_none hz, hrest]
        simp
      | some y' =>
        have hy' : y' ≠ y := fun heq => hne (hinj z List.mem_cons_self (heq ▸ hz))
        rw [List.filterMap_cons_some hz, List.findIdx?_cons, hrest]
        simp [hy']

namespace Analysis

variable {r a : Analysis} {env : Environment} {w : VariableId} {f : RecordField}

/-- A field belongs to the record of the body that its variable belongs to. -/
theorem LaidOut.layout_of_field (h : r.LaidOut a) (hf : (a.var w).field = some f) :
    (a.body (r.var w).body).layout = some f.layout := by
  have hmem := h.isCaptured_iff_closedOver.mp (by rw [Variable.isCaptured, hf]; rfl)
  have hbody : (r.var w).body < r.bodies.size := by
    by_contra hle
    rw [r.body_of_size_le (not_lt.mp hle)] at hmem
    cases hmem
  obtain ⟨l, index, hl, -, hfield⟩ := h.placed _ hbody w hmem
  rw [hf] at hfield
  cases hfield
  exact hl

/-- The record of a variable in reach is as many links up as there are records in between. -/
theorem LaidOut.findIdx?_chain (h : r.LaidOut a) (hroot : (r.body 0).parent = .none)
    (henv : env.Valid r) (hw : r.Reaches env w) (hf : (a.var w).field = some f) (isProgram : Bool) :
    (BodyContext.ofBody a (Resolve.current env) isProgram).chain.findIdx? (· == f.layout) =
      some (a.recordsBelow env.bodies (r.var w).body) := by
  rw [h.chain_ofBody hroot henv]
  refine findIdx?_filterMap (f := fun id => (a.body id).layout) (h.layout_of_field hf) hw.owner
    fun id _ hid => ?_
  have hlayout := h.layout_of_field hf
  rcases Nat.lt_trichotomy id (r.var w).body with hlt | heq | hlt
  · exact absurd (h.increasing _ _ _ _ hid hlayout hlt) (lt_irrefl _)
  · exact heq
  · exact absurd (h.increasing _ _ _ _ hlayout hid hlt) (lt_irrefl _)

end Analysis

/-! ### Computations that do not fail -/

namespace Compile

variable {α β : Type} {P : StaticError → Prop} {x : Compile α}

/-- All errors of a computation have some property. -/
def FailsAs (P : StaticError → Prop) (x : Compile α) : Prop :=
  ∀ s e, x s = .error e → P e

/-- A computation that does not fail. -/
abbrev Total (x : Compile α) : Prop :=
  x.FailsAs fun _ => False

namespace FailsAs

theorem pure (a : α) : FailsAs P (pure a : Compile α) :=
  nofun

theorem bind {f : α → Compile β} (hx : x.FailsAs P) (hf : ∀ a, (f a).FailsAs P) :
    (x >>= f).FailsAs P := by
  intro s e he
  change (x s).bind (fun r => f r.1 r.2) = .error e at he
  cases hxs : x s with
  | error e' =>
    rw [hxs] at he
    cases he
    exact hx s _ hxs
  | ok r =>
    rw [hxs] at he
    exact hf r.1 r.2 e he

end FailsAs

theorem Total.exists_ok (h : x.Total) (s : BodyState) : ∃ r, x s = .ok r := by
  cases hx : x s with
  | ok r => exact ⟨r, rfl⟩
  | error e => exact (h s e hx).elim

/-! ### Places of variables -/

variable {ctx : BodyContext}

theorem total_slot (v : VariableId) : (slot ctx v).Total := by
  intro s e he
  cases hv : s.slot? v with
  | some x =>
    rw [slot_of_some hv] at he
    cases he
  | none =>
    rw [slot_of_none hv] at he
    cases he

/-- The address of a field has a record that is as many links up as the layout is in the chain. -/
theorem fieldAddress_eq_ok {f : RecordField} {hops : Nat}
    (h : ctx.chain.findIdx? (· == f.layout) = some hops) (s : BodyState) :
    ∃ n s', fieldAddress ctx f s = .ok (⟨n, f.index⟩, s') ∧ s'.hops[n]? = some hops := by
  unfold fieldAddress
  rw [h]
  cases hn : s.hops.findIdx? (· == hops) with
  | some n =>
    obtain ⟨hlt, heq, -⟩ := List.findIdx?_eq_some_iff_getElem.mp hn
    refine ⟨n, s, ?_, ?_⟩
    · change (recordNumber hops s).bind _ = _
      rw [recordNumber_of_some hn]
      rfl
    · rw [List.getElem?_eq_getElem hlt, beq_iff_eq.mp heq]
  | none =>
    refine ⟨s.hops.length, { s with hops := s.hops ++ [hops] }, ?_, by simp⟩
    change (recordNumber hops s).bind _ = _
    rw [recordNumber_of_none hn]
    rfl

theorem total_fieldAddress {f : RecordField} {hops : Nat}
    (h : ctx.chain.findIdx? (· == f.layout) = some hops) : (fieldAddress ctx f).Total := by
  intro s e he
  obtain ⟨_, _, hok, -⟩ := fieldAddress_eq_ok h s
  rw [hok] at he
  cases he

/-- Where a variable other than a global or a parameter is kept, as `storage` finds it. -/
def localStorage (ctx : BodyContext) (v : VariableId) : Compile Storage :=
  match (ctx.analysis.var v).field with
  | some f => do return .field (← fieldAddress ctx f)
  | none =>
    if (ctx.analysis.var v).body == ctx.id then do
      let slot ← slot ctx v
      return .slot slot.rep slot.index
    else throw (.unresolvedIdentifier (ctx.analysis.var v).name)

/-- A variable has a storage in a body if it is one of the body's own or has a field in the
chain. -/
theorem total_storage {v : VariableId}
    (hkind : (ctx.analysis.var v).kind ∈ [.global, .parameter, .arguments, .local])
    (hchain : ∀ f, (ctx.analysis.var v).field = some f →
      ∃ hops, ctx.chain.findIdx? (· == f.layout) = some hops)
    (hown : (ctx.analysis.var v).kind ≠ .global → (ctx.analysis.var v).field = none →
      (ctx.analysis.var v).body = ctx.id) : (storage ctx v).Total := by
  have hslot : (ctx.analysis.var v).kind ≠ .global → (localStorage ctx v).Total := by
    intro hne
    unfold localStorage
    split
    · rename_i f hf
      obtain ⟨hops, h⟩ := hchain f hf
      exact (total_fieldAddress h).bind fun _ => .pure _
    · rename_i hf
      rw [if_pos (beq_iff_eq.mpr (hown hne hf))]
      exact (total_slot v).bind fun _ => .pure _
  unfold storage
  dsimp only
  split <;> rename_i hk
  · exact .pure _
  · split
    · exact .pure _
    · rename_i hbody
      split
      · rename_i f hf
        obtain ⟨hops, h⟩ := hchain f hf
        exact (total_fieldAddress h).bind fun _ => .pure _
      · rename_i hf
        exact absurd (beq_iff_eq.mpr (hown (by simp [hk]) hf)) hbody
  · exact hslot (by simp [hk])
  · exact hslot (by simp [hk])
  · simp [hk] at hkind
  · simp [hk] at hkind

theorem total_binding {v : VariableId} (h : (storage ctx v).Total) : (binding ctx v).Total :=
  h.bind fun _ => .pure _

theorem total_bindings {vs : List VariableId} (h : ∀ v ∈ vs, (storage ctx v).Total) :
    (bindings ctx vs).Total := by
  induction vs with
  | nil => exact .pure _
  | cons v rest ih =>
    obtain ⟨hv, hrest⟩ := List.forall_mem_cons.mp h
    exact (total_binding hv).bind fun _ => (ih hrest).bind fun _ => .pure _

/-- A variable is accessed in a body if it has a storage, or all that it stands for have. -/
theorem total_access {v : VariableId}
    (h : (storage ctx v).Total ∧ (ctx.analysis.var v).kind ≠ .withScope ∨
    (ctx.analysis.var v).kind = .withScope ∧
      (∃ target, (ctx.analysis.var v).fallback = some target ∧ (storage ctx target).Total) ∧
      ∀ w ∈ (ctx.analysis.var v).withChain.map Prod.fst, (storage ctx w).Total) :
    (access ctx v).Total := by
  unfold access
  dsimp only
  rcases h with ⟨h, hkind⟩ | ⟨hkind, ⟨target, hfallback, htarget⟩, hwiths⟩
  · split
    · rename_i hk
      exact absurd hk hkind
    · exact (total_binding h).bind fun _ => .pure _
  · rw [hkind, hfallback]
    exact (total_bindings hwiths).bind fun _ => (total_binding htarget).bind fun _ => .pure _

end Compile

namespace Analysis

variable {r a : Analysis} {env : Environment} {v w : VariableId}

/-- All variables in reach have a storage. -/
theorem LaidOut.total_storage (h : r.LaidOut a) (hroot : (r.body 0).parent = .none)
    (henv : env.Valid r) (hw : r.Reaches env w) (isProgram : Bool) :
    (Compile.storage (.ofBody a (Resolve.current env) isProgram) w).Total := by
  obtain ⟨_, _, hvar⟩ := h.same.var w
  have hkind : (a.var w).kind = (r.var w).kind := by rw [hvar]
  have hbody : (a.var w).body = (r.var w).body := by rw [hvar]
  refine Compile.total_storage (hkind ▸ hw.kind)
    (fun f hf => ⟨_, h.findIdx?_chain hroot henv hw hf _⟩)
    fun hglobal hfield => ?_
  by_contra hne
  have hcapturable : (r.var w).isCapturable = true := by
    change (a.var w).kind ≠ .global at hglobal
    have := hw.kind
    rw [hkind] at hglobal
    rw [Variable.isCapturable_iff]
    simp only [List.mem_cons, List.not_mem_nil, or_false] at this ⊢
    tauto
  have hcaptured := h.isCaptured_iff_closedOver.mpr (hw.captured (hbody ▸ hne) hcapturable)
  change (a.var w).field = .none at hfield
  rw [Variable.isCaptured, hfield] at hcaptured
  cases hcaptured

/-- All that a name stands for can be accessed. -/
theorem LaidOut.total_access (h : r.LaidOut a) (hroot : (r.body 0).parent = .none)
    (henv : env.Valid r) (hv : r.Accesses env v) (isProgram : Bool) :
    (Compile.access (.ofBody a (Resolve.current env) isProgram) v).Total := by
  obtain ⟨_, _, hvar⟩ := h.same.var v
  have hkind : (a.var v).kind = (r.var v).kind := by rw [hvar]
  have hstorage {w : VariableId} (hw : r.Reaches env w) := h.total_storage hroot henv hw isProgram
  apply Compile.total_access
  rcases hv with hv | ⟨hv, ⟨target, hfallback, htarget⟩, hwiths⟩
  · refine .inl ⟨hstorage hv, fun hne => ?_⟩
    have := hv.kind
    change (a.var v).kind = _ at hne
    simp [← hkind, hne] at this
  · refine .inr ⟨hkind.trans hv, ⟨target, ?_, hstorage htarget⟩, fun w hw => hstorage (hwiths w ?_)⟩
    · change (a.var v).fallback = _
      rw [hvar, ← hfallback]
    · change w ∈ (a.var v).withChain.map Prod.fst at hw
      rwa [hvar] at hw

/-- A body's own variables of a call are in its own record, if they are in any. -/
theorem LaidOut.total_selfBinding (h : r.LaidOut a) (hs : r.Sound) {id : FunctionId}
    (hv : (a.body id).selfBinding = some v) (isProgram : Bool) :
    (Compile.access (.ofBody a id isProgram) v).Total := by
  obtain ⟨_, _, hbodyInfo⟩ := h.same.body id
  obtain ⟨_, _, hvar⟩ := h.same.var v
  obtain ⟨howns, -⟩ := (hs.body id).selfBinding v (by rw [← hv, hbodyInfo])
  have hkind : (a.var v).kind = .local := by
    rw [hvar]
    exact List.mem_singleton.mp howns.kind
  have hbody : (a.var v).body = id := by
    rw [hvar]
    exact howns.body
  refine Compile.total_access
    (.inl ⟨Compile.total_storage ?_ (fun f hf => ⟨0, ?_⟩) fun _ _ => hbody, ?_⟩)
  · change (a.var v).kind ∈ _
    rw [hkind]
    decide
  · have hl := h.layout_of_field hf
    rw [howns.body] at hl
    obtain ⟨n, hn⟩ := Nat.exists_eq_succ_of_ne_zero
      (Nat.ne_of_gt (Nat.zero_lt_of_lt (h.below id _ hl)))
    unfold BodyContext.ofBody
    simp [hl, hn, layoutChain, List.findIdx?_cons]
  · change (a.var v).kind ≠ _
    rw [hkind]
    decide

end Analysis

end ScriptEngine
