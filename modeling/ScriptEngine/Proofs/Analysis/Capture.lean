import ScriptEngine.Analysis.Basic
import ScriptEngine.Proofs.Analysis.Layout
import ScriptEngine.Proofs.Analysis.Names
import ScriptEngine.Proofs.Script.Parsing

/-!
# Captured variables

A variable has a field in a record just if it is one of a body that a function inside the body uses.

## Main definitions

* `Analysis.Reaches` : code in a body can reach a variable.
* `Analysis.Accesses` : code in a body can reach all that a name stands for.

## Main statements

* `Occurrence.Resolved.accesses` : what occurrences stand for can be reached.
* `laidOut_of_analyze` : what the tables of a script are.
* `Program.isCaptured_iff` : which variables are captured.
-/

namespace ScriptEngine

/-- The variable that a mention stands for. -/
def Mention.denoted? (a : Analysis) : Mention → Option VariableId
  | .identifier i | .parameter i | .declared i => a.reference? i
  | .holder id => a.withVariable? id

/-! ### Variables in reach -/

/-- Code of the body at the head of an environment can reach a variable: it belongs to one of the
bodies around, and is captured unless it is the body's own. -/
structure Analysis.Reaches (a : Analysis) (env : Environment) (w : VariableId) : Prop where
  bound : w < a.vars.size
  owner : (a.var w).body ∈ env.bodies
  kind : (a.var w).kind ∈ [.global, .parameter, .arguments, .local]
  captured : (a.var w).body ≠ Resolve.current env → a.Captured w

/-- A variable can be reached itself, or it stands for a name inside of `with` statements that all
can be reached, as can the variable behind them. -/
def Analysis.Accesses (a : Analysis) (env : Environment) (v : VariableId) : Prop :=
  a.Reaches env v ∨ (a.var v).kind = .withScope ∧
    (∃ target, (a.var v).fallback = some target ∧ a.Reaches env target) ∧
    ∀ w ∈ (a.var v).withChain.map Prod.fst, a.Reaches env w

section

variable {a : Analysis} {env : Environment} {v w : VariableId}

/-- What is declared by a body around has a kind that can be reached. -/
theorem declarableKinds_subset (body : FunctionId) :
    .local :: declarableKinds body ⊆ [.global, .parameter, .arguments, .local] := by
  unfold declarableKinds
  split <;> decide

theorem Analysis.Owns.reaches {kinds : List VariableKind} (h : a.Owns (Resolve.current env) kinds w)
    (henv : env.Valid a) (hkinds : kinds ⊆ [.global, .parameter, .arguments, .local]) :
    a.Reaches env w where
  bound := h.bound
  owner := h.body ▸ henv.current_mem
  kind := hkinds h.kind
  captured hne := absurd h.body hne

/-- What a name denotes can be reached. -/
theorem Environment.Denotes.accesses {name : String} (h : env.Denotes a name v) (hs : a.Sound)
    (henv : env.Valid a) : a.Accesses env v := by
  obtain ⟨target, outer, withs, hfind, hcaptured, hv⟩ := h
  obtain ⟨hfound, hwiths⟩ := henv.of_find hs hfind
  obtain ⟨-, ⟨id, hid, howns⟩, hinside, -⟩ := hfound target outer rfl
  have htarget : a.Reaches env target :=
    { bound := howns.bound
      owner := howns.body ▸ hid
      kind := declarableKinds_subset id howns.kind
      captured := fun hne => by
        cases outer with
        | false => exact absurd (hinside rfl).2 hne
        | true => exact hcaptured rfl }
  rcases hv with ⟨-, rfl⟩ | ⟨-, hguards⟩
  · exact .inl htarget
  · refine .inr ⟨by rw [hguards.var]; rfl, ⟨target, by rw [hguards.var], htarget⟩, fun w hw => ?_⟩
    have hmem : w ∈ withs := by
      rw [hguards.var] at hw
      simpa using hw
    obtain ⟨id, hid, howns⟩ := hwiths w hmem
    exact
      { bound := howns.bound
        owner := howns.body ▸ hid
        kind := (List.mem_singleton.mp howns.kind).symm ▸ by decide
        captured := hguards.captured w hmem }

theorem Environment.Valid.accesses_holder {e : ScopeEntry} (h : e.Valid a (Resolve.current env))
    (henv : env.Valid a) : a.Accesses env e.holder :=
  .inl (h.owns.reaches henv (by decide))

/-- All that a name stands for can be reached. -/
theorem Analysis.Accesses.reaches (h : a.Accesses env v) (huses : a.Uses v w)
    (hkind : (a.var w).kind ≠ .withScope) : a.Reaches env w := by
  rcases h with h | ⟨hv, ⟨target, hfallback, htarget⟩, hwiths⟩
  · rcases huses with rfl | ⟨hv, -⟩
    · exact h
    · have := h.kind
      simp [hv] at this
  · rcases huses with rfl | ⟨-, hw | hw⟩
    · exact absurd hv hkind
    · rw [hfallback] at hw
      cases hw
      exact htarget
    · exact hwiths w hw

/-- What an occurrence stands for can be reached from the body around it. -/
theorem Mention.Resolved.accesses {m : Mention} (h : m.Resolved a env) (hs : a.Sound)
    (henv : env.Valid a) : ∃ v, m.denoted? a = some v ∧ a.Accesses env v := by
  cases m with
  | identifier i =>
    obtain ⟨v, hv, hdenotes⟩ := h
    exact ⟨v, hv, hdenotes.accesses hs henv⟩
  | parameter i =>
    obtain ⟨v, hv, hvalid⟩ := h
    exact ⟨v, hv, henv.accesses_holder hvalid⟩
  | holder id =>
    obtain ⟨v, hv, hvalid⟩ := h
    exact ⟨v, hv, henv.accesses_holder hvalid⟩
  | declared i =>
    obtain ⟨v, hv, howns, -⟩ := h
    refine ⟨v, ?_, .inl (howns.reaches henv fun k hk => ?_)⟩
    · change a.references[i.id]?.join = some v
      rw [hv]
      rfl
    · exact declarableKinds_subset _ (List.mem_cons_of_mem _ hk)

end

/-! ### Tables of a script -/

namespace Analysis

variable (a : Analysis)

theorem var_setTypes (types : Array ValueType) (v : VariableId) :
    ∃ valueType, (a.setTypes types).var v = { a.var v with valueType } := by
  unfold setTypes var
  dsimp only
  rw [Array.getElem?_mapIdx]
  cases a.vars[v]? with
  | none => exact ⟨_, rfl⟩
  | some x => exact ⟨_, rfl⟩

theorem var_untyped (v : VariableId) :
    ∃ valueType, a.untyped.var v = { a.var v with valueType } := by
  unfold untyped var
  dsimp only
  rw [Array.getElem?_map]
  cases a.vars[v]? with
  | none => exact ⟨_, rfl⟩
  | some x => exact ⟨_, rfl⟩

end Analysis

/-- The tables of a script come from those in which all names are resolved. -/
theorem laidOut_of_analyze {p : Program} {options : CompileOptions} {a : Analysis}
    (hp : p.WellNumbered) (h : analyze p options = .ok a) :
    ∃ r origin, p.Scoped r origin ∧ r.LaidOut a := by
  unfold analyze at h
  cases hr : Resolve.program options.strict p with
  | error e =>
    rw [hr] at h
    cases h
  | ok r =>
    rw [hr] at h
    obtain ⟨origin, hscoped⟩ := Resolve.scoped_of_program hp hr
    have hlaid := Analysis.laidOut_withLayouts hscoped.sound
    refine ⟨r, origin, hscoped, ?_⟩
    cases h
    dsimp only
    split
    · exact hlaid.retype (by simp) (Analysis.var_setTypes _ _)
    · exact hlaid.retype (by simp) (Analysis.var_untyped _)

/-- Some property of a source that is accepted, by computation. -/
theorem Program.exists_analyze (source : String) (options : CompileOptions)
    (q : Program → Analysis → Bool)
    (h : ((Program.parse source).toOption.any fun p => (analyze p options).toOption.any (q p)) =
      true) :
    ∃ p a, Program.parse source = .ok p ∧ analyze p options = .ok a ∧ q p a = true := by
  obtain ⟨p, hp, h⟩ := Program.exists_parse source _ h
  obtain ⟨a, ha, h⟩ := exists_of_toOption_any h
  exact ⟨p, a, hp, ha, h⟩

/-! ### Which variables are captured -/

theorem Variable.isCapturable_iff {x : Variable} :
    x.isCapturable = true ↔ x.kind ∈ [.local, .parameter, .arguments] := by
  unfold isCapturable
  cases x.kind <;> decide

namespace Analysis

variable {r a : Analysis} {v w : VariableId}

theorem SameScopes.uses (h : r.SameScopes a) : a.Uses v w ↔ r.Uses v w := by
  obtain ⟨_, _, hv⟩ := h.var v
  unfold Uses
  rw [hv]

theorem SameScopes.reference? (h : r.SameScopes a) (i : Identifier) :
    a.reference? i = r.reference? i := by
  unfold Analysis.reference?
  rw [h.references]

theorem SameScopes.denoted? (h : r.SameScopes a) (m : Mention) : m.denoted? a = m.denoted? r := by
  cases m with
  | identifier i | parameter i | declared i => exact h.reference? i
  | holder id =>
    change a.withVariables[id]?.join = r.withVariables[id]?.join
    rw [h.withVariables]

theorem SameScopes.usesForeign (h : r.SameScopes a) (o : Occurrence) :
    o.UsesForeign a w ↔ o.UsesForeign r w := by
  obtain ⟨_, _, hw⟩ := h.var w
  unfold Occurrence.UsesForeign
  simp only [h.reference?, h.uses, hw]

/-- A variable has a field just if it was captured from its body. -/
theorem LaidOut.isCaptured_iff_closedOver (h : r.LaidOut a) :
    (a.var v).isCaptured = true ↔ v ∈ (r.body (r.var v).body).closedOver := by
  unfold Variable.isCaptured
  constructor
  · intro hfield
    by_contra hv
    rw [h.unplaced v hv] at hfield
    cases hfield
  · intro hv
    have hbody : (r.var v).body < r.bodies.size := by
      by_contra hle
      rw [r.body_of_size_le (not_lt.mp hle)] at hv
      cases hv
    obtain ⟨l, index, -, -, hfield⟩ := h.placed _ hbody v hv
    rw [hfield]
    rfl

/-- Only parameters and local variables are captured. -/
theorem LaidOut.kind_of_isCaptured (h : r.LaidOut a) (hs : r.Sound)
    (hv : (a.var v).isCaptured = true) :
    (r.var v).kind ∈ [.parameter, .local] :=
  ((hs.body _).closedOver v (h.isCaptured_iff_closedOver.mp hv)).kind

end Analysis

/-- In the tables of a script a variable is captured just if it is a parameter, a local variable or
the `arguments` of a function, and an identifier in a function inside of its body uses it.  So
neither a variable that its own body alone uses is captured, nor a global one, nor `this` or
`arguments`. -/
theorem Program.isCaptured_iff {source : String} {p : Program} {options : CompileOptions}
    {a : Analysis} (hp : Program.parse source = .ok p) (ha : analyze p options = .ok a) :
    (∀ v, (a.var v).isCaptured = true ↔ (a.var v).kind ∈ [.local, .parameter, .arguments] ∧
      ∃ o ∈ p.occurrences, o.UsesForeign a v) ∧
    (∀ v, (∀ o ∈ p.occurrences, ∀ i w, o.mention = .identifier i → a.reference? i = some w →
      a.Uses w v → Scope.owner o.scopes = (a.var v).body) → (a.var v).isCaptured = false) ∧
    ∀ v, (a.var v).kind ∈ [.global, .this, .arguments] → (a.var v).isCaptured = false := by
  obtain ⟨r, origin, hscoped, hlaid⟩ := laidOut_of_analyze (Program.wellNumbered_of_parse hp) ha
  have hkind (v : VariableId) : (a.var v).kind = (r.var v).kind := by
    obtain ⟨_, _, hv⟩ := hlaid.same.var v
    rw [hv]
  have howned {v : VariableId} (h : (a.var v).isCaptured = true) :
      (a.var v).kind ∈ [.parameter, .local] := by
    rw [hkind]
    exact hlaid.kind_of_isCaptured hscoped.sound h
  have hused {v : VariableId} (h : (a.var v).isCaptured = true) :
      ∃ o ∈ p.occurrences, o.UsesForeign a v := by
    obtain ⟨o, ho, huses⟩ := hscoped.captures _ v (hlaid.isCaptured_iff_closedOver.mp h)
    exact ⟨o, ho, (hlaid.same.usesForeign o).mpr huses⟩
  have hsubset : [VariableKind.parameter, .local] ⊆ [.local, .parameter, .arguments] := by decide
  refine ⟨fun v => ⟨fun h => ⟨hsubset (howned h), hused h⟩, fun ⟨hv, o, ho, huses⟩ => ?_⟩,
    fun v h => ?_, fun v h => ?_⟩
  · -- the search for the identifier left the body that it stands in
    rw [hlaid.same.usesForeign] at huses
    obtain ⟨i, w, hi, hw, huses, hne, -⟩ := huses
    obtain ⟨env, hreads, hresolved⟩ := hscoped.occurrences o ho
    obtain ⟨w', hw', haccesses⟩ := hresolved.accesses hscoped.sound hreads.valid
    rw [hi] at hw'
    obtain rfl := Option.some.inj (hw.symm.trans hw')
    rw [hkind] at hv
    have hreaches := haccesses.reaches huses fun h => by simp [h] at hv
    exact hlaid.isCaptured_iff_closedOver.mpr
      (hreaches.captured (hreads.current_eq ▸ hne) (Variable.isCapturable_iff.mpr hv))
  · by_contra hv
    obtain ⟨o, ho, i, w, hi, hw, huses, hne, -⟩ := hused (by simpa using hv)
    exact hne (h o ho i w hi hw huses).symm
  · by_contra hv
    have := howned (by simpa using hv)
    simp only [List.mem_cons, List.not_mem_nil, or_false] at h this
    rcases h with h | h | h <;> simp [h] at this

theorem Program.isCaptured_nested : ∃ p a,
    Program.parse "function f(x) { return function () { return x; }; }" = .ok p ∧
    analyze p ⟨false, true⟩ = .ok a ∧ ∃ v, (a.var v).name = "x" ∧
      ∃ o ∈ p.occurrences, o.UsesForeign a v := by
  obtain ⟨p, a, hp, ha, hv⟩ := Program.exists_analyze
    "function f(x) { return function () { return x; }; }" ⟨false, true⟩
    (fun _ a => (a.var 2).name == "x" && (a.var 2).isCaptured) (by decide +kernel)
  obtain ⟨hname, hcaptured⟩ := Bool.and_eq_true_iff.mp hv
  exact ⟨p, a, hp, ha, 2, beq_iff_eq.mp hname,
    (((Program.isCaptured_iff hp ha).1 2).mp hcaptured).2⟩

end ScriptEngine
