import ScriptEngine.Proofs.Compile.Frame

/-!
# Names inside `with` statements

A name inside `with` statements is looked up in their objects when it is used.  If one of them has
it, then the use is that of the property of the innermost one, and otherwise that of the variable
outside.  A use that reads and writes looks once, before anything else of it runs.

Both ways are compared with other expressions: with the same use of a property of an expression that
yields the object, and with the same use of a name that is not hidden.

## Main definitions

* `Access.Innermost`, `Access.Nowhere`, `Access.Broken` : where a name is found.
* `PlaceUse` : what an expression does with a name or a property.
* `PlaceUse.perform` : what a use does with a place that was found.

## Main statements

* `Access.found` : a name is found in exactly one of the three ways.
* `Compile.value_ofName`, `Compile.value_ofMember` : a use finds a place once and first.
* `Compile.with_resolves` : uses of a name inside `with` statements.
-/

namespace ScriptEngine

/-! ### Where a name is found -/

/-- The variable of a `with` statement holds an object that has a name, maybe by inheritance. -/
structure Binding.Holds (b : Binding) (name : String) (s : RunState) (r : Ref) : Prop where
  read : b.storage.read false s = .ok (.object r) s
  has : s.machine.heap.hasProperty r name = true

/-- The variable of a `with` statement holds nothing that has a name. -/
def Binding.Lacks (b : Binding) (name : String) (s : RunState) : Prop :=
  ∃ v, b.storage.read false s = .ok v s ∧ ∀ r, v = .object r →
    s.machine.heap.hasProperty r name = false

namespace Access

/-- The innermost object that has the name. -/
def Innermost (a : Access) (s : RunState) (r : Ref) : Prop :=
  ∃ inner scope outer, a.scopes = inner ++ scope :: outer ∧ (∀ b ∈ inner, b.Lacks a.name s) ∧
    scope.Holds a.name s r

/-- No object has the name. -/
def Nowhere (a : Access) (s : RunState) : Prop :=
  ∀ b ∈ a.scopes, b.Lacks a.name s

/-- An object cannot be read, and none inside of it has the name. -/
def Broken (a : Access) (s : RunState) (e : RuntimeError) : Prop :=
  ∃ inner scope outer, a.scopes = inner ++ scope :: outer ∧ (∀ b ∈ inner, b.Lacks a.name s) ∧
    scope.storage.read false s = .error e s

end Access

/-! ### Reading variables -/

/-- A computation changes nothing and ends with a result or an error. -/
def Act.Looks {α : Type} (x : Act α) : Prop :=
  ∀ s, (∃ a, x s = .ok a s) ∨ ∃ e, x s = .error e s

namespace Act.Looks

variable {α β : Type}

theorem pure (a : α) : Looks (pure a : Act α) :=
  fun _ => .inl ⟨a, rfl⟩

theorem raise (kind : ErrorKind) (message : String) : Looks (Exec.raise kind message : Act α) :=
  fun _ => .inr ⟨_, rfl⟩

theorem onFrame (f : Frame → α) : Looks (Act.onFrame f) :=
  fun _ => .inl ⟨_, rfl⟩

theorem onHeap (f : Heap → α) : Looks (Act.onHeap f) :=
  fun _ => .inl ⟨_, rfl⟩

theorem bind {x : Act α} {f : α → Act β} (h : x.Looks) (hf : ∀ a, (f a).Looks) :
    Looks (x >>= f) := by
  intro s
  change (∃ b, Exec.andThen x f s = .ok b s) ∨ ∃ e, Exec.andThen x f s = .error e s
  unfold Exec.andThen
  rcases h s with ⟨a, hx⟩ | ⟨e, hx⟩
  · rw [hx]
    exact hf a s
  · rw [hx]
    exact .inr ⟨e, rfl⟩

end Act.Looks

theorem Act.looks_readField (address : FieldAddress) : (Act.readField address).Looks := by
  refine .bind (.bind (.onFrame _) fun r => ?_) fun r s => .inl ⟨_, rfl⟩
  cases r.join with
  | some r => exact .pure r
  | none => exact .raise _ _

theorem Act.looks_argumentsObject (via : Option FieldAddress) :
    (Act.argumentsObject via).Looks := by
  cases via with
  | none => exact .onFrame _
  | some address => exact Act.looks_readField address

/-- Reading a variable changes nothing. -/
theorem Storage.looks_read (lenient : Bool) (storage : Storage) : (storage.read lenient).Looks := by
  cases storage with
  | global name =>
    refine .bind (.onHeap _) fun found => ?_
    cases found with
    | true => exact Act.Looks.onHeap fun h => h.get _ name
    | false =>
      cases lenient with
      | true => exact .pure _
      | false => exact .raise _ _
  | parameter index via => exact .bind (Act.looks_argumentsObject via) fun arguments => .onHeap _
  | slot ρ index => exact Act.Looks.onFrame fun f => ρ.box (f.slot ρ index)
  | field address => exact Act.looks_readField address

/-! ### The search -/

namespace Access

variable {a : Access} {s : RunState}

theorem bind_ok {α β : Type} {x : Act α} {f : α → Act β} {s s' : RunState} {r : α}
    (h : x s = .ok r s') :
    (x >>= f) s = f r s' := by
  change Exec.andThen x f s = f r s'
  rw [Exec.andThen, h]

theorem bind_error {α β : Type} {x : Act α} {f : α → Act β} {s s' : RunState} {e : RuntimeError}
    (h : x s = .error e s') : (x >>= f) s = .error e s' := by
  change Exec.andThen x f s = .error e s'
  rw [Exec.andThen, h]

theorem probe_lacks {b : Binding} {name : String} (h : b.Lacks name s) :
    probe name b s = .ok none s := by
  obtain ⟨v, hread, hlacks⟩ := h
  unfold probe
  rw [bind_ok hread]
  cases v with
  | object r =>
    have hfound : Act.onHeap (·.hasProperty r name) s = .ok false s :=
      congrArg (Ending.ok · s) (hlacks r rfl)
    dsimp only
    rw [bind_ok hfound]
    rfl
  | _ => rfl

theorem probe_holds {b : Binding} {name : String} {r : Ref} (h : b.Holds name s r) :
    probe name b s = .ok (some (.object r)) s := by
  have hfound : Act.onHeap (·.hasProperty r name) s = .ok true s := congrArg (Ending.ok · s) h.has
  unfold probe
  rw [bind_ok h.read]
  dsimp only
  rw [bind_ok hfound]
  rfl

/-- Scopes that lack a name are passed over. -/
theorem firstResult_lacks {name : String} : ∀ {inner : List Binding} (outer : List Binding),
    (∀ b ∈ inner, b.Lacks name s) →
      Exec.firstResult (probe name) (inner ++ outer) s = Exec.firstResult (probe name) outer s
  | [], _, _ => rfl
  | b :: rest, outer, h => by
    obtain ⟨hb, hrest⟩ := List.forall_mem_cons.mp h
    rw [List.cons_append, Exec.firstResult_cons, bind_ok (probe_lacks hb)]
    exact firstResult_lacks outer hrest

theorem resolve_innermost {r : Ref} (h : a.Innermost s r) :
    a.resolve s = .ok (.property (.object r) a.name) s := by
  obtain ⟨inner, scope, outer, hscopes, hinner, hscope⟩ := h
  have hfound : Exec.firstResult (probe a.name) a.scopes s = .ok (some (.object r)) s := by
    rw [hscopes, firstResult_lacks _ hinner, Exec.firstResult_cons, bind_ok (probe_holds hscope)]
    rfl
  unfold resolve
  rw [bind_ok hfound]
  rfl

theorem resolve_nowhere (h : a.Nowhere s) : a.resolve s = .ok (.binding a.name a.binding) s := by
  have hfound : Exec.firstResult (probe a.name) a.scopes s = .ok none s := by
    rw [← List.append_nil a.scopes, firstResult_lacks _ h]
    rfl
  unfold resolve
  rw [bind_ok hfound]
  rfl

theorem resolve_broken {e : RuntimeError} (h : a.Broken s e) : a.resolve s = .error e s := by
  obtain ⟨inner, scope, outer, hscopes, hinner, hscope⟩ := h
  have hfound : Exec.firstResult (probe a.name) a.scopes s = .error e s := by
    rw [hscopes, firstResult_lacks _ hinner, Exec.firstResult_cons]
    exact bind_error (bind_error hscope)
  unfold resolve
  exact bind_error hfound

/-- A name is found in the innermost object that has it, or nowhere, or an object cannot be read. -/
theorem found (a : Access) (s : RunState) :
    (∃ r, a.Innermost s r) ∨ a.Nowhere s ∨ ∃ e, a.Broken s e := by
  have hsearch : ∀ l : List Binding, (∀ b ∈ l, b.Lacks a.name s) ∨
      ∃ inner scope outer, l = inner ++ scope :: outer ∧ (∀ b ∈ inner, b.Lacks a.name s) ∧
        ((∃ r, scope.Holds a.name s r) ∨ ∃ e, scope.storage.read false s = .error e s) := by
    intro l
    induction l with
    | nil => exact .inl nofun
    | cons b rest ih =>
      have hb : b.Lacks a.name s ∨ (∃ r, b.Holds a.name s r) ∨ ∃ e,
          b.storage.read false s = .error e s := by
        rcases b.storage.looks_read false s with ⟨v, hv⟩ | herror
        · by_cases h : ∃ r, v = .object r ∧ s.machine.heap.hasProperty r a.name = true
          · obtain ⟨r, rfl, hr⟩ := h
            exact .inr (.inl ⟨r, hv, hr⟩)
          · refine .inl ⟨v, hv, fun r hr => ?_⟩
            simpa using fun hhas => h ⟨r, hr, hhas⟩
        · exact .inr (.inr herror)
      rcases hb with hb | hb
      · rcases ih with hrest | ⟨inner, scope, outer, rfl, hinner, hscope⟩
        · exact .inl (List.forall_mem_cons.mpr ⟨hb, hrest⟩)
        · exact .inr ⟨b :: inner, scope, outer, rfl, List.forall_mem_cons.mpr ⟨hb, hinner⟩, hscope⟩
      · exact .inr ⟨[], b, rest, rfl, nofun, hb⟩
  rcases hsearch a.scopes with h | ⟨inner, scope, outer, hscopes, hinner, ⟨r, hr⟩ | ⟨e, he⟩⟩
  · exact .inr (.inl h)
  · exact .inl ⟨r, inner, scope, outer, hscopes, hinner, hr⟩
  · exact .inr (.inr ⟨e, inner, scope, outer, hscopes, hinner, he⟩)

end Access

/-! ### Uses of places -/

/-- What an expression does with a name or with a property. -/
inductive PlaceUse where
  | read
  | typeOf
  | call (arguments : List Expr)
  | delete
  | assign (value : Expr)
  | compound (op : BinaryOp) (value : Expr)
  | update (op : UpdateOp) (before : Bool)

namespace PlaceUse

/-- The use of a name. -/
def ofName (span : Span) (i : Identifier) : PlaceUse → Expr
  | .read => .identifier i
  | .typeOf => .unary span .typeOf (.identifier i)
  | .call arguments => .call span (.identifier i) arguments
  | .delete => .unary span .delete (.identifier i)
  | .assign value => .assign span .plain (.identifier i) value
  | .compound op value => .assign span (.compound op) (.identifier i) value
  | .update op before => .update span op (.identifier i) before

/-- The use of a property. -/
def ofMember (span : Span) (m : Member) : PlaceUse → Expr
  | .read => .member m
  | .typeOf => .unary span .typeOf (.member m)
  | .call arguments => .call span (.member m) arguments
  | .delete => .unary span .delete (.member m)
  | .assign value => .assign span .plain (.member m) value
  | .compound op value => .assign span (.compound op) (.member m) value
  | .update op before => .update span op (.member m) before

/-- The values of the arguments of a call. -/
def operands (host : Host) (ctx : BodyContext) (given : BodyState) (es : List Expr) :
    Act (List Value) :=
  match Compile.exprList ctx es given with
  | .ok (cs, _) => evalList host cs
  | .error _ => Exec.exhaust

/-- What a use does with a place that was found. -/
def perform (host : Host) (ctx : BodyContext) (given : BodyState) (p : Place) : PlaceUse → Act Value
  | .read => p.read false
  | .typeOf => do
    let v ← p.read true
    Act.lift (Run.unary host.call .typeOf v)
  | .call arguments => do
    let f ← p.read false
    let values ← operands host ctx given arguments
    Act.lift (callAtPlace host.call p f values)
  | .delete => do return .boolean (← p.delete)
  | .assign value => do
    let v ← (Evaluator.ofBody host ctx given).value value
    p.write v
    return v
  | .compound op value => do
    let old ← p.read false
    let v ← (Evaluator.ofBody host ctx given).value value
    let new ← Act.lift (Run.binary host.call op old v)
    p.write new
    return new
  | .update op before => do
    let x ← Act.lift (Run.toNumber host.call (← p.read false))
    p.write (.number (x + op.step))
    return .number (if before then x + op.step else x)

end PlaceUse

/-- A slot that is read and written as it is takes any value. -/
def Access.IsBoxed (a : Access) : Prop :=
  ∀ ρ index, a.scopes = [] → a.binding = ⟨.slot ρ index, none⟩ → ρ = .boxed

theorem Access.resolve_of_scopes_nil {a : Access} (h : a.scopes = []) :
    a.resolve = pure (.binding a.name a.binding) := by
  unfold resolve
  rw [h]
  rfl

namespace Compile

variable {host : Host} {ctx : BodyContext} {given : BodyState} {c : TypedCode} {use : PlaceUse}
  {span : Span}

theorem evaluator_value {e : Expr} {s : BodyState} (h : expr ctx e given = .ok (c, s)) :
    (Evaluator.ofBody host ctx given).value e = c.value host := by
  simp only [Evaluator.ofBody, h]

theorem value_store_boxed {a : Access} (h : a.IsBoxed) (v : TypedCode) :
    (a.store v).value host =
      a.resolve >>= fun p => v.value host >>= fun x => p.write x >>= fun _ => pure x :=
  value_store a v fun ρ index hscopes hbinding x _ => by
    rw [h ρ index hscopes hbinding]
    rfl

/-- The use of a name finds its place once and before anything else. -/
theorem value_ofName {i : Identifier} {a : Access} (hi : identifier ctx i given = .ok (a, given))
    (ha : a.IsBoxed) (hc : expr ctx (use.ofName span i) given = .ok (c, given)) :
    c.value host = a.resolve >>= fun p => use.perform host ctx given p := by
  cases use with
  | read =>
    rw [PlaceUse.ofName, expr, bind_of_ok hi] at hc
    cases hc
    exact value_load a false
  | typeOf =>
    rw [PlaceUse.ofName, expr, bind_of_ok hi] at hc
    cases hc
    rw [value_specializeUnary, value_load, bind_assoc]
    rfl
  | call arguments =>
    rw [PlaceUse.ofName, expr, bind_of_ok hi] at hc
    obtain ⟨cs, t, hcs, hc⟩ := bind_eq_ok hc
    cases hc
    rw [TypedCode.value_mk, Code.eval, Reference.resolve]
    simp only [PlaceUse.perform, PlaceUse.operands, hcs]
    exact id_map _
  | delete =>
    rw [PlaceUse.ofName, expr, bind_of_ok hi] at hc
    cases hc
    rw [TypedCode.value_mk, Code.eval, Reference.resolve, map_bind]
    rfl
  | assign value =>
    rw [PlaceUse.ofName, expr, bind_of_ok hi] at hc
    obtain ⟨v, t, hv, hc⟩ := bind_eq_ok hc
    cases hc
    simp only [value_store_boxed ha, PlaceUse.perform, evaluator_value hv]
  | compound op value =>
    rw [PlaceUse.ofName, expr, bind_of_ok hi] at hc
    obtain ⟨v, t, hv, hc⟩ := bind_eq_ok hc
    split at hc
    · next hscopes =>
      cases hc
      rw [List.isEmpty_iff] at hscopes
      simp only [value_store_boxed ha, value_specializeBinary, value_load, PlaceUse.perform,
        evaluator_value hv, Access.resolve_of_scopes_nil hscopes, pure_bind, bind_assoc]
    · cases hc
      rw [TypedCode.value_mk, Code.eval, Reference.resolve]
      simp only [PlaceUse.perform, evaluator_value hv, TypedCode.eval_inRep_boxed]
      exact id_map _
  | update op before =>
    rw [PlaceUse.ofName, expr, target] at hc
    obtain ⟨r, t, hr, hc⟩ := bind_eq_ok hc
    rw [bind_of_ok hi] at hr
    cases hr
    cases hc
    rw [value_stepCode, Reference.resolve]
    simp only [PlaceUse.perform]

theorem member_eq_ok {m : Member} {r : Reference} {s t : BodyState}
    (h : member ctx m s = .ok (r, t)) :
    ∃ object key, r = .member object key := by
  cases m with
  | named span object property =>
    rw [member] at h
    obtain ⟨o, t', -, h⟩ := bind_eq_ok h
    cases h
    exact ⟨_, _, rfl⟩
  | computed span object property =>
    rw [member] at h
    obtain ⟨o, t', -, h⟩ := bind_eq_ok h
    obtain ⟨k, t'', -, h⟩ := bind_eq_ok h
    cases h
    exact ⟨_, _, rfl⟩

/-- The use of a property finds its place once and before anything else. -/
theorem value_ofMember {m : Member} {r : Reference} (hr : member ctx m given = .ok (r, given))
    (hc : expr ctx (use.ofMember span m) given = .ok (c, given)) :
    c.value host = r.resolve host >>= fun p => use.perform host ctx given p := by
  have hread {d : TypedCode} {t : BodyState} (hd : expr ctx (.member m) given = .ok (d, t)) :
      d.value host = r.resolve host >>= fun p => p.read false := by
    rw [expr, bind_of_ok hr] at hd
    cases hd
    rw [TypedCode.value_mk, Code.eval]
    exact id_map _
  cases use with
  | read => exact hread hc
  | typeOf =>
    simp only [PlaceUse.ofMember, expr] at hc
    obtain ⟨d, t, hd, hc⟩ := bind_eq_ok hc
    cases hc
    rw [value_specializeUnary, hread hd, bind_assoc]
    refine Exec.bind_congr fun p hyields => ?_
    -- A property that is not there is no error.
    obtain ⟨_, _, rfl⟩ := member_eq_ok hr
    cases p with
    | property base key => rfl
    | binding name b => exact absurd (Reference.canBe_of_yields hyields) id
  | call arguments =>
    rw [PlaceUse.ofMember, expr, bind_of_ok hr] at hc
    obtain ⟨cs, t, hcs, hc⟩ := bind_eq_ok hc
    cases hc
    rw [TypedCode.value_mk, Code.eval]
    simp only [PlaceUse.perform, PlaceUse.operands, hcs]
    exact id_map _
  | delete =>
    rw [PlaceUse.ofMember, expr, bind_of_ok hr] at hc
    cases hc
    rw [TypedCode.value_mk, Code.eval, map_bind]
    rfl
  | assign value =>
    rw [PlaceUse.ofMember, expr, bind_of_ok hr] at hc
    obtain ⟨v, t, hv, hc⟩ := bind_eq_ok hc
    cases hc
    rw [TypedCode.value_mk, Code.eval]
    simp only [PlaceUse.perform, evaluator_value hv, TypedCode.eval_inRep_boxed]
    exact id_map _
  | compound op value =>
    rw [PlaceUse.ofMember, expr] at hc
    obtain ⟨v, t, hv, hc⟩ := bind_eq_ok hc
    obtain ⟨r', t', hr', hc⟩ := bind_eq_ok hc
    cases hc
    -- The value is compiled first, and gives nothing that was not given before.
    obtain ⟨hgrows, hlater⟩ := steady_member m hr'
    obtain ⟨hv', -⟩ := (steady_expr value hv).2 hgrows
    cases (hlater (.refl given)).1.symm.trans hr
    rw [TypedCode.value_mk, Code.eval]
    simp only [PlaceUse.perform, evaluator_value hv', TypedCode.eval_inRep_boxed]
    exact id_map _
  | update op before =>
    rw [PlaceUse.ofMember, expr, target] at hc
    rw [bind_of_ok hr] at hc
    cases hc
    rw [value_stepCode]
    simp only [PlaceUse.perform]

/-! ### Names inside `with` statements -/

/-- The property of an object that an expression yields. -/
theorem resolve_named {object : Expr} {o : TypedCode} {name : String} {r : Ref} {s : RunState}
    {place : Reference} (ho : expr ctx object given = .ok (o, given))
    (hplace : member ctx (.named span object name) given = .ok (place, given))
    (hr : o.value host s = .ok (.object r) s) :
    place.resolve host s = .ok (.property (.object r) name) s := by
  rw [member, bind_of_ok ho] at hplace
  cases hplace
  rw [Reference.resolve, TypedCode.eval_inRep_boxed, Access.bind_ok hr]
  rfl

theorem identifier_eq_ok {i : Identifier} {a : Access} {s t : BodyState}
    (h : identifier ctx i s = .ok (a, t)) : ∃ v, access ctx v s = .ok (a, t) := by
  unfold identifier at h
  cases hv : ctx.analysis.reference? i with
  | none =>
    rw [hv] at h
    cases h
  | some v =>
    rw [hv] at h
    exact ⟨v, h⟩

/-- Only a name inside `with` statements is looked up in objects, and it has a fallback. -/
theorem access_eq_ok {v : VariableId} {a : Access} {s t : BodyState}
    (h : access ctx v s = .ok (a, t)) (hwith : a.scopes ≠ []) :
    ∃ target s', (ctx.analysis.var v).fallback = some target ∧
      binding ctx target s' = .ok (a.binding, t) := by
  have hplain :
      (binding ctx v >>= fun b => pure ⟨(ctx.analysis.var v).name, [], b⟩ : Compile Access) s ≠
      .ok (a, t) := by
    intro h
    obtain ⟨b, s', -, h⟩ := bind_eq_ok h
    cases h
    exact hwith rfl
  unfold access at h
  cases hkind : (ctx.analysis.var v).kind with
  | withScope =>
    rw [hkind] at h
    cases hfallback : (ctx.analysis.var v).fallback with
    | none =>
      rw [hfallback] at h
      cases h
    | some target =>
      rw [hfallback] at h
      obtain ⟨scopes, s', -, h⟩ := bind_eq_ok h
      obtain ⟨b, s'', hb, h⟩ := bind_eq_ok h
      cases h
      exact ⟨target, s', rfl, hb⟩
  | _ =>
    rw [hkind] at h
    exact absurd h hplain

/-- The variable that a name inside `with` statements stands for otherwise takes any value. -/
theorem boxed_of_with {p : Program} {options : CompileOptions}
    (ha : analyze p options = .ok ctx.analysis) (hs : given.Sound ctx) {i : Identifier} {a : Access}
    (hi : identifier ctx i given = .ok (a, given)) (hwith : a.scopes ≠ []) {ρ : Rep} {index : Nat}
    (hslot : a.binding.storage = .slot ρ index) :
    ρ = .boxed := by
  obtain ⟨v, hv⟩ := identifier_eq_ok hi
  obtain ⟨target, t, hfallback, hb⟩ := access_eq_ok hv hwith
  obtain ⟨x, t', hx, hb⟩ := bind_eq_ok hb
  generalize a.binding = b at hb hslot
  cases hb
  dsimp only at hslot
  obtain ⟨-, hallotted⟩ := (steady_storage target hx).2 (.refl given)
  have hkind := hs.kind target ⟨ρ, index⟩ (by rwa [hslot] at hallotted)
  have htype : (ctx.analysis.var target).valueType = .unknown ∨
      (ctx.analysis.var target).valueType = .unset := by
    by_cases hlt : target < ctx.analysis.vars.size
    · exact .inl (valueType_of_analyze ha hlt (.inr (.inr ⟨v, hfallback⟩)))
    · right
      rw [Analysis.var, Array.getElem?_eq_none (Nat.le_of_not_lt hlt)]
      rfl
  rw [show ρ = _ from hkind]
  rcases htype with h | h <;> rw [h] <;> rfl

end Compile

/-- Writes what a name stands for at that moment. -/
def Access.assign (a : Access) (v : Value) : Act Unit := do
  (← a.resolve).write v

/-- What is done with the place of a name is done with the property of the innermost object that has
the name, or else with the variable outside, and not at all if an object cannot be read. -/
structure Access.ActsWhereFound {α : Type} (a : Access) (s : RunState)
    (x : Ending RunState RuntimeError α) (f : Place → Act α) : Prop where
  innermost : ∀ r, a.Innermost s r → x = f (.property (.object r) a.name) s
  nowhere : a.Nowhere s → x = f (.binding a.name a.binding) s
  broken : ∀ e, a.Broken s e → x = .error e s

theorem Access.actsWhereFound {α : Type} (a : Access) (f : Place → Act α) (s : RunState) :
    a.ActsWhereFound s ((a.resolve >>= f) s) f where
  innermost _ h := Access.bind_ok (Access.resolve_innermost h)
  nowhere h := Access.bind_ok (Access.resolve_nowhere h)
  broken _ h := Access.bind_error (Access.resolve_broken h)

namespace Compile

variable {host : Host} {ctx : BodyContext} {given : BodyState}

/-- The keys of a `for`-`in` loop are written where the name is found in each round. -/
theorem exec_forIn {i : Identifier} {a : Access}
    (hi : identifier ctx i given = .ok (a, given)) {j : Jumps} {span : Span} {left : ForInTarget}
    (hleft : left = .declaration i ∨ left = .target (.identifier i)) {right : Expr} {body : Stmt}
    {code : StatementCode} {t : BodyState}
    (hcode : stmt ctx j (.forIn span left right body) given = .ok (code, t)) :
    ∃ (object : Act Value) (round : Act Completion),
      code.exec host = object >>= fun v => forKeys v a.assign round j.nextId := by
  have hplace : forInPlace ctx left given = .ok (.name a, given) := by
    rcases hleft with rfl | rfl
    · rw [forInPlace, bind_of_ok hi]
      rfl
    · rw [forInPlace, target, bind_of_ok hi]
      rfl
  rw [stmt_forIn, bind_of_ok hplace] at hcode
  obtain ⟨o, _, -, hcode⟩ := bind_eq_ok hcode
  obtain ⟨b, _, -, hcode⟩ := bind_eq_ok hcode
  cases hcode
  exact ⟨(o.inRep .boxed).eval host, b.exec host, by rw [StatementCode.exec]; rfl⟩

/-- A use of a name inside `with` statements acts on the property of the innermost object that has
the name, just as the same use of that property of any expression that yields the object.  If no
object has it, the use acts on the variable outside, just as the same use of a name of that
variable.  The object or the variable is found once, before any other part of the use runs, and
afresh for every use and for every key of a `for`-`in` loop. -/
theorem with_resolves {p : Program} {options : CompileOptions}
    (ha : analyze p options = .ok ctx.analysis) (hs : given.Sound ctx) {i : Identifier} {a : Access}
    (hi : identifier ctx i given = .ok (a, given)) (hwith : a.scopes ≠ []) (host : Host)
    (s : RunState) :
    ((∃ r, a.Innermost s r) ∨ a.Nowhere s ∨ ∃ e, a.Broken s e) ∧
    (∀ (use : PlaceUse) (span : Span) (c : TypedCode),
      expr ctx (use.ofName span i) given = .ok (c, given) →
      a.ActsWhereFound s (c.value host s) (use.perform host ctx given ·) ∧
      (∀ r, a.Innermost s r → ∀ (object : Expr) (o d : TypedCode),
        expr ctx object given = .ok (o, given) →
        o.value host s = .ok (.object r) s →
        expr ctx (use.ofMember span (.named span object a.name)) given = .ok (d, given) →
          c.value host s = d.value host s) ∧
      (a.Nowhere s → ∀ (k : Identifier) (d : TypedCode),
        identifier ctx k given = .ok (⟨a.name, [], a.binding⟩, given) →
        expr ctx (use.ofName span k) given = .ok (d, given) → c.value host s = d.value host s)) ∧
    ∀ (j : Jumps) (span : Span) (left : ForInTarget) (right : Expr) (body : Stmt)
      (code : StatementCode) (t : BodyState),
      left = .declaration i ∨ left = .target (.identifier i) →
      stmt ctx j (.forIn span left right body) given = .ok (code, t) →
      ∃ (object : Act Value) (round : Act Completion) (write : Value → Act Unit),
        code.exec host = (object >>= fun v => forKeys v write round j.nextId) ∧
        ∀ key t, a.ActsWhereFound t (write key t) (·.write key) := by
  have hboxed : a.IsBoxed := fun _ _ hscopes => absurd hscopes hwith
  refine ⟨a.found s, fun use span c hc => ?_, fun j span left right body code t hleft hcode => ?_⟩
  · rw [value_ofName hi hboxed hc]
    refine ⟨a.actsWhereFound _ s, fun r hr object o d ho hobject hd => ?_,
      fun hnowhere k d hk hd => ?_⟩
    · obtain ⟨place, hplace⟩ : ∃ place, member ctx (.named span object a.name) given =
          .ok (place, given) := by
        rw [member, bind_of_ok ho]
        exact ⟨_, rfl⟩
      rw [value_ofMember hplace hd, Access.bind_ok (Access.resolve_innermost hr),
        Access.bind_ok (resolve_named ho hplace hobject)]
    · have hboxed' : Access.IsBoxed ⟨a.name, [], a.binding⟩ := fun ρ index _ hbinding => by
        have hstorage : a.binding.storage = .slot ρ index := by
          rw [show a.binding = _ from hbinding]
        exact boxed_of_with ha hs hi hwith hstorage
      have hresolve : (⟨a.name, [], a.binding⟩ : Access).resolve =
          pure (.binding a.name a.binding) :=
        Access.resolve_of_scopes_nil rfl
      rw [value_ofName hk hboxed' hd, hresolve, pure_bind,
        Access.bind_ok (Access.resolve_nowhere hnowhere)]
  · obtain ⟨object, round, hexec⟩ := exec_forIn hi hleft hcode
    exact ⟨object, round, a.assign, hexec, fun key t => a.actsWhereFound _ t⟩

end Compile

/-- An activation whose first slot holds an empty array. -/
def RunState.withArray : RunState where
  frame := { (default : Frame) with values := #[.object 0] }
  machine :=
    { heap := (Heap.empty.newArray #[]).2, records := .empty, depth := 0, limit := 0, output := "" }

/-- An assignment to `length` where `with` has opened an array. -/
theorem Compile.with_resolves_length : ∃ p a i given c, Program.parse
      "function f(o) { with (o) { length = 1; } }" = .ok p ∧ analyze p ⟨false, true⟩ = .ok a ∧
    identifier (.ofBody a 1 false) i given =
      .ok (⟨"length", [⟨.slot .boxed 0, none⟩], ⟨.global "length", none⟩⟩, given) ∧
    expr (.ofBody a 1 false)
      (.assign default .plain (.identifier i) (.literal default (.number 1))) given =
      .ok (c, given) ∧
    ∀ host, c.value host .withArray = (do
      (Place.property (.object 0) "length").write (.number 1)
      return Value.number 1) RunState.withArray := by
  obtain ⟨p, a, hp, ha, h⟩ :=
    Program.exists_analyze "function f(o) { with (o) { length = 1; } }" ⟨false, true⟩
      (fun p a => p.occurrences.any fun o => match o.mention with
        | .identifier i => match identifier (.ofBody a 1 false) i .initial with
          | .ok (x, _) => x == ⟨"length", [⟨.slot .boxed 0, none⟩], ⟨.global "length", none⟩⟩
          | .error _ => false
        | _ => false) (by decide +kernel)
  obtain ⟨o, -, ho⟩ := List.any_eq_true.mp h
  split at ho
  · rename_i i _
    split at ho
    · rename_i x given hx
      obtain rfl := beq_iff_eq.mp ho
      obtain ⟨hgrows, hlater⟩ := steady_identifier i hx
      have hi := (hlater (.refl given)).1
      obtain ⟨c, hc⟩ : ∃ c, expr (.ofBody a 1 false)
          ((PlaceUse.assign (.literal default (.number 1))).ofName default i) given =
            .ok (c, given) := by
        rw [PlaceUse.ofName, expr, bind_of_ok hi, expr]
        exact ⟨_, rfl⟩
      refine ⟨p, a, i, given, c, hp, ha, hi, hc, fun host => ?_⟩
      have hacts :=
        ((with_resolves ha (hgrows.sound sound_initial) hi (by simp) host .withArray).2.1
          (.assign (.literal default (.number 1))) default _ hc).1
      have hinnermost : (⟨"length", [⟨.slot .boxed 0, none⟩], ⟨.global "length", none⟩⟩ :
          Access).Innermost .withArray 0 := ⟨[], _, [], rfl, nofun, rfl, by decide⟩
      have hone : (Evaluator.ofBody host (.ofBody a 1 false) given).value
          (.literal default (.number 1)) = pure (.number 1) :=
        (evaluator_value (c := .constant (.number 1)) rfl).trans (TypedCode.value_constant _)
      rw [hacts.innermost 0 hinnermost]
      simp only [PlaceUse.perform, hone, pure_bind]
    · cases ho
  · cases ho

end ScriptEngine
