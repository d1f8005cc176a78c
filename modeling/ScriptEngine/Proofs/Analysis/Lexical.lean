import ScriptEngine.Proofs.Analysis.Capture
import ScriptEngine.Proofs.Script.Hoisting

/-!
# Lexical scoping

An identifier denotes the variable of the innermost scope that binds its name, read from the syntax
around it, and the `with` statements inside of that scope are the ones whose objects are asked
first.

## Main definitions

* `Scope.Binds` : a scope binds a name.
* `Scope.binder?` : the innermost scope around a place that binds a name.
* `Analysis.IsBoundBy` : a variable is that of a name in a scope.

## Main statements

* `Environment.Reads.find` : a search finds the innermost binding.
* `Program.resolves_lexically` : what the identifiers of a script denote.
-/

namespace ScriptEngine

/-! ### Bindings in the syntax -/

/-- The names that a function binds in its body: its parameters, `arguments`, what is declared at
any depth of the body outside of nested functions, and the name of a function expression. -/
def Func.Declares (f : Func) (x : String) : Prop :=
  x ∈ f.params.map (·.name) ∨ x = "arguments" ∨
    (∃ s ∈ f.body, ∃ t : Stmt, t.Within s ∧ x ∈ t.vars) ∨
    (∃ g : Func, (∃ s ∈ f.body, (Stmt.function g).Within s) ∧ g.name = x) ∨
    f.isExpression = true ∧ f.identifier?.map (·.name) = some x

theorem Func.declares_iff {f : Func} {x : String} : f.Declares x ↔ f.Binds x := by
  unfold Declares Binds
  simp only [mem_bodyVarNames, List.mem_map (f := Func.name), mem_bodyFunctions,
    Option.map_eq_some_iff]

instance (f : Func) (x : String) : Decidable (f.Declares x) :=
  decidable_of_iff (x ∈ f.params.map (·.name) ∨ x = "arguments" ∨ x ∈ bodyVarNames f.body ∨
      x ∈ (bodyFunctions f.body).map Func.name ∨
      f.isExpression = true ∧ f.identifier?.map (·.name) = some x) <| by
    rw [Func.declares_iff]
    simp only [Func.Binds, Option.map_eq_some_iff]

namespace Scope

/-- A scope binds a name: a `catch` clause its parameter, and a function what it declares. -/
def Binds (x : String) : Scope → Prop
  | .catch param => param.name = x
  | .with _ => False
  | .function f => f.Declares x

instance (x : String) : (s : Scope) → Decidable (s.Binds x)
  | .catch param => inferInstanceAs (Decidable (param.name = x))
  | .with _ => inferInstanceAs (Decidable False)
  | .function f => inferInstanceAs (Decidable (f.Declares x))

/-- The innermost scope that binds a name; the script binds all that is left. -/
def binder? (x : String) (scopes : List Scope) : Option Scope :=
  scopes.find? fun s => s.Binds x

/-- The `with` statements between a place and the innermost scope that binds a name. -/
def withsInside (x : String) (scopes : List Scope) : List NodeId :=
  (scopes.takeWhile fun s => ¬ s.Binds x).filterMap fun
    | .with id => some id
    | _ => none

/-- What tells the scopes that bind names apart. -/
def site : Option Scope → NodeId ⊕ FunctionId
  | some (.catch param) => .inl param.id
  | some (.function f) => .inr f.id
  | _ => .inr 0

variable {x : String} {s : Scope} {scopes : List Scope}

theorem binder?_of_binds (h : s.Binds x) : binder? x (s :: scopes) = some s :=
  List.find?_cons_of_pos (by simpa using h)

theorem binder?_of_not_binds (h : ¬ s.Binds x) : binder? x (s :: scopes) = binder? x scopes :=
  List.find?_cons_of_neg (by simpa using h)

theorem binds_of_binder? (h : binder? x scopes = some s) : s.Binds x := by
  have hfound := List.find?_some h
  rwa [decide_eq_true_eq] at hfound

theorem withsInside_of_binds (h : s.Binds x) : withsInside x (s :: scopes) = [] := by
  unfold withsInside
  rw [List.takeWhile_cons_of_neg (by simpa using h)]
  rfl

theorem withsInside_of_not_binds (h : ¬ s.Binds x) : withsInside x (s :: scopes) =
    (match s with | .with id => [id] | _ => []) ++ withsInside x scopes := by
  unfold withsInside
  rw [List.takeWhile_cons_of_pos (by simpa using h)]
  cases s <;> rfl

end Scope

/-! ### Bindings in the tables -/

/-- A variable is that of a name in a scope, or in the script. -/
def Analysis.IsBoundBy (a : Analysis) (x : String) (v : VariableId) : Option Scope → Prop
  | some (.catch param) => a.reference? param = some v ∧ (a.var v).kind = .local
  | some (.function f) => (a.body f.id).declared.get? x = some v ∧ (a.var v).kind = f.bindingKind x
  | some (.with _) => False
  | none => (a.body 0).declared.get? x = some v ∧ (a.var v).kind = .global

section

variable {a : Analysis} {origin : VariableId → NodeId} {scopes : List Scope} {env : Environment}

theorem Environment.find_openScope_catch (hne : env ≠ []) (bound x : String) (v : VariableId)
    (outer : Bool) : Environment.find a x outer (Resolve.openScope (.catch_ bound v) env) =
      if bound = x then ⟨some (v, outer), []⟩ else env.find a x outer := by
  cases env with
  | nil => exact absurd rfl hne
  | cons level rest =>
    by_cases hname : bound = x
    · simp [Resolve.openScope, find, searchEntries, hname]
    · simp [Resolve.openScope, find, searchEntries, hname]

theorem Environment.find_openScope_with (hne : env ≠ []) (x : String) (v : VariableId)
    (outer : Bool) :
    Environment.find a x outer (Resolve.openScope (.with_ v) env) =
      ⟨(env.find a x outer).found, v :: (env.find a x outer).withs⟩ := by
  cases env with
  | nil => exact absurd rfl hne
  | cons level rest =>
    simp only [Resolve.openScope, find, searchEntries]
    cases searchEntries x level.entries with
    | mk found withs =>
      cases found with
      | some w => rfl
      | none =>
        dsimp only
        split <;> rfl

theorem Environment.Valid.ne_nil (h : env.Valid a) : env ≠ [] := by
  cases h <;> simp

/-- A search finds the variable of the innermost scope that binds the name, and passes the `with`
statements inside of that scope. -/
theorem Environment.Reads.find (h : Environment.Reads a origin scopes env) (hs : a.Sound)
    (x : String) (outer : Bool) :
    (env.find a x outer).withs.map some = (Scope.withsInside x scopes).map a.withVariable? ∧
      ∀ v o, (env.find a x outer).found = some (v, o) →
        a.IsBoundBy x v (Scope.binder? x scopes) := by
  induction h generalizing outer with
  | script =>
    unfold Environment.find
    simp only [searchEntries]
    split
    · rename_i v hv
      refine ⟨rfl, ?_⟩
      rintro _ _ ⟨⟩
      obtain ⟨howns, -⟩ := (hs.body 0).declared x v hv
      exact ⟨hv, List.mem_singleton.mp howns.kind⟩
    · refine ⟨rfl, ?_⟩
      rintro _ _ ⟨⟩
  | @function f scopes env opens outer' ih =>
    have hbinds : (Scope.function f).Binds x ↔ (a.body f.id).declared.contains x = true :=
      Func.declares_iff.trans (opens.binds x).symm
    unfold Environment.find
    simp only [searchEntries]
    split
    · rename_i v hv
      have h := hbinds.mpr ((NameTable.contains_iff _).mpr ⟨v, hv⟩)
      rw [Scope.withsInside_of_binds h, Scope.binder?_of_binds h]
      refine ⟨rfl, ?_⟩
      rintro _ _ ⟨⟩
      exact ⟨hv, opens.kinds x v hv⟩
    · rename_i hnone
      have h : ¬ (Scope.function f).Binds x := by
        rw [hbinds, ← NameTable.isSome_get?, hnone]
        exact Bool.false_ne_true
      rw [Scope.withsInside_of_not_binds h, Scope.binder?_of_not_binds h]
      exact ih true
  | @«catch» param v scopes env holder own valid outer' ih =>
    rw [Environment.find_openScope_catch outer'.valid.ne_nil]
    split
    · rename_i hname
      have h : (Scope.catch param).Binds x := hname
      rw [Scope.withsInside_of_binds h, Scope.binder?_of_binds h]
      refine ⟨rfl, ?_⟩
      rintro _ _ ⟨⟩
      exact ⟨holder, valid.kind⟩
    · rename_i hname
      have h : ¬ (Scope.catch param).Binds x := hname
      rw [Scope.withsInside_of_not_binds h, Scope.binder?_of_not_binds h]
      exact ih outer
  | @«with» id v scopes env holder own valid outer' ih =>
    have h : ¬ (Scope.with id).Binds x := fun h => h
    rw [Environment.find_openScope_with outer'.valid.ne_nil, Scope.withsInside_of_not_binds h,
      Scope.binder?_of_not_binds h]
    obtain ⟨hwiths, hfound⟩ := ih outer
    refine ⟨?_, hfound⟩
    rw [List.map_cons, hwiths, ← holder]
    rfl

/-- The variable of the parameter of a `catch` clause around a place. -/
theorem Environment.Reads.of_catch (h : Environment.Reads a origin scopes env) {param : Identifier}
    (hmem : Scope.catch param ∈ scopes) :
    ∃ v body, a.reference? param = some v ∧ origin v = param.id ∧
      (ScopeEntry.catch_ param.name v).Valid a body := by
  induction h with
  | script => cases hmem
  | function _ _ ih => exact ih ((List.mem_cons.mp hmem).resolve_left nofun)
  | «catch» holder own valid _ ih =>
    rcases List.mem_cons.mp hmem with heq | hmem
    · cases heq
      exact ⟨_, _, holder, own, valid⟩
    · exact ih hmem
  | «with» _ _ _ _ ih => exact ih ((List.mem_cons.mp hmem).resolve_left nofun)

end

/-- A variable has a name and belongs to the scope with some site. -/
def Analysis.Sits (a : Analysis) (origin : VariableId → NodeId) (x : String) (v : VariableId) :
    NodeId ⊕ FunctionId → Prop
  | .inl n => a.references[n]?.join = some v ∧ origin v = n ∧ (a.var v).name = x ∧
      v ∈ (a.body (a.var v).body).synthetic
  | .inr id => (a.body id).declared.get? x = some v ∧ (a.var v).name = x ∧ (a.var v).body = id

section

variable {a : Analysis} {origin : VariableId → NodeId} {x : String} {v : VariableId}

theorem Analysis.IsBoundBy.sits {scopes : List Scope} {env : Environment}
    (h : a.IsBoundBy x v (Scope.binder? x scopes)) (hs : a.Sound)
    (hreads : Environment.Reads a origin scopes env) :
    a.Sits origin x v (Scope.site (Scope.binder? x scopes)) := by
  have hdeclared {id : FunctionId} (hv : (a.body id).declared.get? x = some v) :
      a.Sits origin x v (.inr id) := by
    obtain ⟨howns, hname⟩ := (hs.body id).declared x v hv
    exact ⟨hv, hname, howns.body⟩
  cases hbinder : Scope.binder? x scopes with
  | none =>
    rw [hbinder] at h
    exact hdeclared h.1
  | some s =>
    rw [hbinder] at h
    cases s with
    | function f => exact hdeclared h.1
    | «with» id => exact h.elim
    | «catch» param =>
      obtain ⟨w, body, hw, hown, hvalid⟩ := hreads.of_catch (List.mem_of_find?_eq_some hbinder)
      obtain rfl := Option.some.inj (h.1.symm.trans hw)
      have hname : (Scope.catch param).Binds x := Scope.binds_of_binder? hbinder
      exact ⟨hw, hown, (hvalid.name _ v rfl).trans hname, hvalid.owner.symm ▸ hvalid.synthetic⟩

/-- A variable tells the scope that binds it and its name, and conversely. -/
theorem Analysis.Sits.eq_iff (hs : a.Sound) {x' : String} {v' : VariableId}
    {s s' : NodeId ⊕ FunctionId} (h : a.Sits origin x v s) (h' : a.Sits origin x' v' s') :
    v = v' ↔ x = x' ∧ s = s' := by
  constructor
  · rintro rfl
    rcases s with n | id <;> rcases s' with n' | id'
    · exact ⟨h.2.2.1.symm.trans h'.2.2.1, congrArg _ (h.2.1.symm.trans h'.2.1)⟩
    · exact absurd (h'.2.2 ▸ h'.1) ((hs.body _).apart v h.2.2.2 x')
    · exact absurd (h.2.2 ▸ h.1) ((hs.body _).apart v h'.2.2.2 x)
    · exact ⟨h.2.1.symm.trans h'.2.1, congrArg _ (h.2.2.symm.trans h'.2.2)⟩
  · rintro ⟨rfl, rfl⟩
    rcases s with n | id <;> exact Option.some.inj (h.1.symm.trans h'.1)

end

/-! ### Scripts -/

/-- The variable behind the `with` statements that a name is looked up in first. -/
def Analysis.underlying (a : Analysis) (v : VariableId) : VariableId :=
  match (a.var v).kind with
  | .withScope => (a.var v).fallback.getD v
  | _ => v

section

variable {r a : Analysis} {origin : VariableId → NodeId} {x : String} {v : VariableId}

theorem Analysis.SameScopes.underlying (h : r.SameScopes a) (v : VariableId) :
    a.underlying v = r.underlying v := by
  obtain ⟨_, _, hv⟩ := h.var v
  unfold Analysis.underlying
  rw [hv]

theorem Analysis.SameScopes.isBoundBy (h : r.SameScopes a) {s : Option Scope} :
    a.IsBoundBy x v s ↔ r.IsBoundBy x v s := by
  obtain ⟨_, _, hv⟩ := h.var v
  have hdeclared (id : FunctionId) : (a.body id).declared = (r.body id).declared := by
    obtain ⟨_, _, hbody⟩ := h.body id
    rw [hbody]
  rcases s with _ | _ | _ | _ <;> simp only [Analysis.IsBoundBy, hdeclared, h.reference?, hv]

/-- What a name denotes at a place. -/
theorem Environment.Denotes.lexical {scopes : List Scope} {env : Environment}
    (h : env.Denotes r x v) (hs : r.Sound) (hreads : Environment.Reads r origin scopes env) :
    r.IsBoundBy x (r.underlying v) (Scope.binder? x scopes) ∧
      ((r.var v).kind = .withScope ↔ Scope.withsInside x scopes ≠ []) ∧
      ((r.var v).kind = .withScope → (r.var v).withChain.map (some ·.1) =
        (Scope.withsInside x scopes).map r.withVariable?) := by
  obtain ⟨target, outer, withs, hfind, -, hv⟩ := h
  obtain ⟨hwiths, hfound⟩ := hreads.find hs x false
  obtain ⟨hkinds, -⟩ := hreads.valid.of_find hs hfind
  obtain ⟨-, ⟨id, -, howns⟩, -⟩ := hkinds target outer rfl
  have hkind : (r.var target).kind ≠ .withScope := fun hk => by
    have := declarableKinds_subset id howns.kind
    simp [hk] at this
  rw [hfind] at hwiths hfound
  have hbound := hfound target outer rfl
  have hempty : withs = [] ↔ Scope.withsInside x scopes = [] := by
    rw [← List.map_eq_nil_iff (f := some), hwiths, List.map_eq_nil_iff]
  rcases hv with ⟨hnil, rfl⟩ | ⟨hne, hguards⟩
  · have hunderlying : r.underlying v = v := by
      unfold Analysis.underlying
      split
      · exact absurd ‹_› hkind
      · rfl
    rw [hunderlying]
    exact ⟨hbound, iff_of_false hkind (not_not.mpr (hempty.mp hnil)), fun hk => absurd hk hkind⟩
  · have hunderlying : r.underlying v = target := by
      unfold Analysis.underlying
      rw [hguards.var]
      rfl
    rw [hunderlying]
    refine ⟨hbound, iff_of_true (by rw [hguards.var]; rfl) (mt hempty.mpr hne), fun _ => ?_⟩
    rw [← hwiths, hguards.var]
    simp

end

/-- An identifier of a script denotes the variable of the innermost scope around it that binds its
name.  If there are `with` statements inside of that scope, their objects are asked first, from the
inside out.  Two identifiers denote the same variable just if they have the same name and the same
scope binds it. -/
theorem Program.resolves_lexically {source : String} {p : Program} {options : CompileOptions}
    {a : Analysis} (hp : Program.parse source = .ok p) (ha : analyze p options = .ok a) :
    (∀ o ∈ p.occurrences, ∀ i, o.mention = .identifier i → ∃ v, a.reference? i = some v ∧
      a.IsBoundBy i.name (a.underlying v) (Scope.binder? i.name o.scopes) ∧
      ((a.var v).kind = .withScope ↔ Scope.withsInside i.name o.scopes ≠ []) ∧
      ((a.var v).kind = .withScope → (a.var v).withChain.map (some ·.1) =
        (Scope.withsInside i.name o.scopes).map a.withVariable?)) ∧
    ∀ o ∈ p.occurrences, ∀ o' ∈ p.occurrences, ∀ i i' v v',
      o.mention = .identifier i → o'.mention = .identifier i' →
      a.reference? i = some v → a.reference? i' = some v' →
      (a.underlying v = a.underlying v' ↔ i.name = i'.name ∧
        Scope.site (Scope.binder? i.name o.scopes) =
          Scope.site (Scope.binder? i'.name o'.scopes)) := by
  obtain ⟨r, origin, hscoped, hlaid⟩ := laidOut_of_analyze (Program.wellNumbered_of_parse hp) ha
  have hresolved {o : Occurrence} (ho : o ∈ p.occurrences) {i : Identifier}
      (hi : o.mention = .identifier i) : ∃ env v, Environment.Reads r origin o.scopes env ∧
        a.reference? i = some v ∧ env.Denotes r i.name v := by
    obtain ⟨env, hreads, hresolved⟩ := hscoped.occurrences o ho
    rw [hi] at hresolved
    obtain ⟨v, hv, hdenotes⟩ := hresolved
    exact ⟨env, v, hreads, (hlaid.same.reference? i).trans hv, hdenotes⟩
  have hsits {o : Occurrence} (ho : o ∈ p.occurrences) {i : Identifier} {v : VariableId}
      (hi : o.mention = .identifier i) (hv : a.reference? i = some v) :
      r.Sits origin i.name (a.underlying v) (Scope.site (Scope.binder? i.name o.scopes)) := by
    obtain ⟨env, w, hreads, hw, hdenotes⟩ := hresolved ho hi
    obtain rfl := Option.some.inj (hv.symm.trans hw)
    rw [hlaid.same.underlying]
    exact (hdenotes.lexical hscoped.sound hreads).1.sits hscoped.sound hreads
  refine ⟨fun o ho i hi => ?_, fun o ho o' ho' i i' v v' hi hi' hv hv' =>
    (hsits ho hi hv).eq_iff hscoped.sound (hsits ho' hi' hv')⟩
  obtain ⟨env, v, hreads, hv, hdenotes⟩ := hresolved ho hi
  obtain ⟨hbound, hkind, hchain⟩ := hdenotes.lexical hscoped.sound hreads
  obtain ⟨_, _, hvar⟩ := hlaid.same.var v
  have hholder : a.withVariable? = r.withVariable? :=
    funext fun id => hlaid.same.denoted? (.holder id)
  refine ⟨v, hv, ?_, ?_, ?_⟩
  · rw [hlaid.same.underlying, hlaid.same.isBoundBy]
    exact hbound
  · rw [hvar]
    exact hkind
  · rw [hvar, hholder]
    exact hchain

theorem Program.resolves_lexically_nested : ∃ p a, Program.parse
      "function f(x) { try { x; } catch (x) { x; return function () { x = x; }; } }" = .ok p ∧
    analyze p ⟨false, true⟩ = .ok a ∧ p.occurrences.length = 6 ∧
    ∀ o ∈ p.occurrences, ∀ i, o.mention = .identifier i → ∃ v, a.reference? i = some v ∧
      a.IsBoundBy i.name (a.underlying v) (Scope.binder? i.name o.scopes) := by
  obtain ⟨p, a, hp, ha, hlength⟩ := Program.exists_analyze
    "function f(x) { try { x; } catch (x) { x; return function () { x = x; }; } }" ⟨false, true⟩
    (fun p _ => p.occurrences.length == 6) (by decide +kernel)
  refine ⟨p, a, hp, ha, beq_iff_eq.mp hlength, fun o ho i hi => ?_⟩
  obtain ⟨v, hv, hbound, -⟩ := (Program.resolves_lexically hp ha).1 o ho i hi
  exact ⟨v, hv, hbound⟩

end ScriptEngine
