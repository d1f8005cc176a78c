import ScriptEngine.Proofs.Analysis.Capture
import ScriptEngine.Proofs.Script.Collecting

/-!
# Strict mode

Taking a script as strict only rejects more of them.  What is accepted gets the same tables, in
which all bodies are then strict.

## Main definitions

* `Analysis.strictly` : tables in which all bodies are strict.
* `Analysis.Loosens` : the same tables, with no more strict bodies.
* `Analysis.Flags` : which bodies have got new flags.
* `Resolve.Restricts` : a computation that succeeds less often than another one, and then in the
  same way.
* `Resolve.Settles` : resolution of a piece of syntax in strict code and in code as it is, side by
  side.

## Main statements

* `Resolve.settles_expr`, `Resolve.settles_stmt` : strictness only restricts what is accepted.
* `Analysis.withLayouts_strictly`, `Analysis.withTypes_strictly` : records and types do not depend
  on it.
* `Program.strict_restricts` : the tables of a script that is taken as strict.
-/

namespace ScriptEngine

/-! ### Tables with other flags -/

/-- The same body with no more reason to be strict. -/
def BodyInfo.Loosens (b b' : BodyInfo) : Prop :=
  ∃ strict, b' = { b with strict } ∧ (b.strict = true → strict = true)

namespace Analysis

/-- Tables in which all bodies are strict. -/
def strictly (a : Analysis) : Analysis :=
  { a with bodies := a.bodies.map fun b => { b with strict := true } }

/-- Tables that differ from others in no more than that fewer bodies are strict. -/
structure Loosens (a a' : Analysis) : Prop where
  vars : a'.vars = a.vars
  layouts : a'.layouts = a.layouts
  references : a'.references = a.references
  withVariables : a'.withVariables = a.withVariables
  size : a'.bodies.size = a.bodies.size
  body : ∀ id, (a.body id).Loosens (a'.body id)

namespace Loosens

variable {a a' : Analysis}

theorem refl (a : Analysis) : a.Loosens a :=
  ⟨rfl, rfl, rfl, rfl, rfl, fun id => ⟨(a.body id).strict, rfl, fun h => h⟩⟩

/-- If all bodies are strict then this is all that is different. -/
theorem eq_strictly (h : a.Loosens a') (hs : ∀ id < a.bodies.size, (a'.body id).strict = true) :
    a' = a.strictly := by
  have hbodies : a'.bodies = a.strictly.bodies := by
    refine Array.ext (by simp [strictly, h.size]) fun id hid hid' => ?_
    have hlt : id < a.bodies.size := h.size ▸ hid
    obtain ⟨strict, hbody, -⟩ := h.body id
    have hstrict := hs id hlt
    rw [hbody] at hstrict
    simp only [Analysis.body, Array.getElem?_eq_getElem hid, Array.getElem?_eq_getElem hlt,
      Option.getD_some] at hbody hstrict
    simp only [strictly, Array.getElem_map, hbody]
    rw [show strict = true from hstrict]
  cases a'
  obtain ⟨hvars, hlayouts, hreferences, hwithVariables, -, -⟩ := h
  dsimp only at hvars hlayouts hreferences hwithVariables hbodies
  rw [hvars, hlayouts, hreferences, hwithVariables, hbodies]
  rfl

theorem var (h : a.Loosens a') (v : VariableId) : a'.var v = a.var v := by
  simp only [Analysis.var, h.vars]

theorem declared (h : a.Loosens a') (id : FunctionId) :
    (a'.body id).declared = (a.body id).declared := by
  obtain ⟨strict, hbody, -⟩ := h.body id
  rw [hbody]

theorem strict (h : a.Loosens a') {id : FunctionId} (hs : (a.body id).strict = true) :
    (a'.body id).strict = true := by
  obtain ⟨strict, hbody, hmono⟩ := h.body id
  rw [hbody]
  exact hmono hs

theorem find (h : a.Loosens a') (name : String) (outer : Bool) (env : Environment) :
    env.find a' name outer = env.find a name outer := by
  induction env generalizing outer with
  | nil => rfl
  | cons level rest ih => simp only [Environment.find, h.declared, ih]

theorem modifyBody (h : a.Loosens a') (id : FunctionId) {f f' : BodyInfo → BodyInfo}
    (hf : ∀ b b' : BodyInfo, b.Loosens b' → (f b).Loosens (f' b')) :
    Loosens { a with bodies := a.bodies.modify id f }
      { a' with bodies := a'.bodies.modify id f' } where
  vars := h.vars
  layouts := h.layouts
  references := h.references
  withVariables := h.withVariables
  size := by simpa using h.size
  body j := by
    rcases eq_or_ne j id with rfl | hne
    · rcases Nat.lt_or_ge j a.bodies.size with hlt | hge
      · rw [a.body_modify_self hlt, a'.body_modify_self (h.size ▸ hlt)]
        exact hf _ _ (h.body j)
      · rw [a.body_modify_of_size_le hge, a'.body_modify_of_size_le (h.size ▸ hge)]
        exact h.body j
    · rw [a.body_modify_of_ne hne, a'.body_modify_of_ne hne]
      exact h.body j

end Loosens

/-- The bodies of some functions, and no other ones, have got new flags. -/
structure Flags (a b : Analysis) (fs : List Func) (strict : Func → Bool) : Prop where
  size : b.bodies.size = a.bodies.size
  inside : ∀ f ∈ fs, (b.body f.id).strict = strict f
  outside : ∀ id, (∀ f ∈ fs, f.id ≠ id) → (b.body id).strict = (a.body id).strict

namespace Flags

variable {a b c : Analysis} {fs fs' : List Func} {strict : Func → Bool}

theorem nil (hsize : b.bodies.size = a.bodies.size)
    (h : ∀ id, (b.body id).strict = (a.body id).strict) :
    a.Flags b [] strict :=
  ⟨hsize, List.forall_mem_nil _, fun id _ => h id⟩

theorem refl (a : Analysis) : a.Flags a [] strict :=
  .nil rfl fun _ => rfl

/-- Without functions the new flags do not matter. -/
theorem of_nil {strict' : Func → Bool} (h : a.Flags b [] strict') : a.Flags b [] strict :=
  .nil h.size fun id => h.outside id (List.forall_mem_nil _)

theorem append (h : a.Flags b fs strict) (h' : b.Flags c fs' strict)
    (hdisjoint : ∀ f ∈ fs, ∀ g ∈ fs', g.id ≠ f.id) : a.Flags c (fs ++ fs') strict where
  size := h'.size.trans h.size
  inside f hf := by
    rcases List.mem_append.mp hf with hf | hf
    · exact (h'.outside f.id (hdisjoint f hf)).trans (h.inside f hf)
    · exact h'.inside f hf
  outside id hid := by
    simp only [List.mem_append, or_imp, forall_and] at hid
    exact (h'.outside id hid.2).trans (h.outside id hid.1)

theorem perm (h : a.Flags b fs strict) (hfs : fs.Perm fs') : a.Flags b fs' strict where
  size := h.size
  inside f hf := h.inside f (hfs.mem_iff.mpr hf)
  outside id hid := h.outside id fun f hf => hid f (hfs.mem_iff.mp hf)

theorem trans {strict' : Func → Bool} (h : a.Flags b [] strict') (h' : b.Flags c fs strict) :
    a.Flags c fs strict :=
  (of_nil h).append h' (List.forall_mem_nil _)

end Flags

end Analysis

namespace Resolve

variable {α β : Type}

theorem run_bind_eq_ok {x : Resolve α} {f : α → Resolve β} {s t : Resolving} {q : β}
    (h : (x >>= f).run s = .ok (q, t)) :
    ∃ r u, x.run s = .ok (r, u) ∧ (f r).run u = .ok (q, t) := by
  rw [StateT.run_bind] at h
  cases hx : x.run s with
  | error e =>
    rw [hx] at h
    cases h
  | ok p =>
    rw [hx] at h
    exact ⟨p.1, p.2, rfl, h⟩

theorem run_bind_of_ok {x : Resolve α} {f : α → Resolve β} {s t : Resolving} {r : α}
    (h : x.run s = .ok (r, t)) : (x >>= f).run s = (f r).run t := by
  rw [StateT.run_bind, h]
  rfl

/-- One computation succeeds only where another one does, on tables with fewer strict bodies.  Their
results are related, and the tables still differ in strictness alone, which neither of them has
changed. -/
def Restricts (R : α → α → Prop) (x' x : Resolve α) : Prop :=
  ∀ ⦃a a' : Analysis⦄ ⦃n : Nat⦄ ⦃r' : α⦄ ⦃s' : Resolving⦄, a.Loosens a' →
    x'.run ⟨a', n⟩ = .ok (r', s') →
    ∃ r b, x.run ⟨a, n⟩ = .ok (r, ⟨b, s'.madeUp⟩) ∧ R r r' ∧ b.Loosens s'.analysis ∧
      a.Flags b [] Func.strict ∧ a'.Flags s'.analysis [] Func.strict

namespace Restricts

variable {x x' : Resolve α} {f f' : α → Resolve β} {R : α → α → Prop} {S : β → β → Prop}

theorem pure {r r' : α} (h : R r r') : Restricts R (Pure.pure r') (Pure.pure r) := by
  intro a a' n r'' s' ha hx
  cases hx
  exact ⟨r, a, rfl, h, ha, .refl a, .refl a'⟩

/-- What is rejected need not be compared. -/
theorem throw (e : StaticError) : Restricts R (MonadExcept.throw e) x := by
  intro a a' n r' s' _ hx
  cases hx

theorem throw_bind (e : StaticError) (g : β → Resolve α) :
    Restricts R (MonadExcept.throw e >>= g) x := by
  intro a a' n r' s' _ hx
  cases hx

theorem bind (hx : Restricts R x' x) (hf : ∀ r r', R r r' → Restricts S (f' r') (f r)) :
    Restricts S (x' >>= f') (x >>= f) := by
  intro a a' n q' t' ha hrun
  obtain ⟨r', s', hx', hrun⟩ := run_bind_eq_ok hrun
  obtain ⟨r, b, hr, hR, hb, hflags, hflags'⟩ := hx ha hx'
  obtain ⟨q, c, hq, hS, hc, hmore, hmore'⟩ := hf r r' hR hb hrun
  exact ⟨q, c, (run_bind_of_ok hr).trans hq, hS, hc, hflags.trans hmore, hflags'.trans hmore'⟩

/-- Two steps, of which the first one has the same result both times. -/
theorem andThen (hx : Restricts Eq x' x) (hf : ∀ r, Restricts S (f' r) (f r)) :
    Restricts S (x' >>= f') (x >>= f) :=
  hx.bind fun r _ hr => hr ▸ hf r

theorem ite {c : Prop} [Decidable c] {y y' : Resolve α} (hx : Restricts R x' x)
    (hy : Restricts R y' y) :
    Restricts R (if c then x' else y') (if c then x else y) := by
  split
  · exact hx
  · exact hy

theorem tables : Restricts Analysis.Loosens tables tables := by
  intro a a' n r' s' ha hx
  cases hx
  exact ⟨a, a, rfl, ha, ha, .refl a, .refl a'⟩

/-- A change of the tables that has nothing to do with strictness. -/
theorem modifyTables {g : Analysis → Analysis} (h : ∀ a a', a.Loosens a' → (g a).Loosens (g a'))
    (hflags : ∀ a : Analysis, a.Flags (g a) [] Func.strict) :
    Restricts Eq (Resolve.modifyTables g) (Resolve.modifyTables g) := by
  intro a a' n r' s' ha hx
  cases hx
  exact ⟨(), g a, rfl, rfl, h a a' ha, hflags a, hflags a'⟩

theorem freshNumber : Restricts Eq Resolve.freshNumber Resolve.freshNumber := by
  intro a a' n r' s' ha hx
  cases hx
  exact ⟨_, a, rfl, rfl, ha, .refl a, .refl a'⟩

/-- A change of a body that has nothing to do with strictness. -/
theorem modifyBody (id : FunctionId) {g : BodyInfo → BodyInfo}
    (h : ∀ b strict, g { b with strict } = { g b with strict }) :
    Restricts Eq (Resolve.modifyBody id g) (Resolve.modifyBody id g) := by
  have hkeeps (b : BodyInfo) : (g b).strict = b.strict := by
    have := congrArg BodyInfo.strict (h b b.strict)
    exact this
  refine modifyTables (fun a a' ha => ha.modifyBody id ?_) fun a => .nil (by simp) fun j => ?_
  · rintro b _ ⟨strict, rfl, hmono⟩
    exact ⟨strict, h b strict, fun hb => hmono ((hkeeps b).symm.trans hb)⟩
  · rcases eq_or_ne j id with rfl | hne
    · rcases Nat.lt_or_ge j a.bodies.size with hlt | hge
      · rw [a.body_modify_self hlt, hkeeps]
      · rw [a.body_modify_of_size_le hge]
    · rw [a.body_modify_of_ne hne]

theorem modifyVariable (id : VariableId) (g : Variable → Variable) :
    Restricts Eq (Resolve.modifyVariable id g) (Resolve.modifyVariable id g) :=
  modifyTables (fun _ _ ha => { ha with vars := congrArg (Array.modify · id g) ha.vars })
    fun _ => .nil rfl fun _ => rfl

theorem setReference (node : NodeId) (v : VariableId) :
    Restricts Eq (Resolve.setReference node v) (Resolve.setReference node v) :=
  modifyTables (fun _ _ ha =>
      { ha with references := congrArg (Array.setIfInBounds · node (some v)) ha.references })
    fun _ => .nil rfl fun _ => rfl

theorem setWithVariable (node : NodeId) (v : VariableId) :
    Restricts Eq (Resolve.setWithVariable node v) (Resolve.setWithVariable node v) :=
  modifyTables (fun _ _ ha =>
      { ha with withVariables := congrArg (Array.setIfInBounds · node (some v)) ha.withVariables })
    fun _ => .nil rfl fun _ => rfl

theorem addVariable (v : Variable) :
    Restricts Eq (Resolve.addVariable v) (Resolve.addVariable v) := by
  refine tables.bind fun a a' ha => ?_
  rw [ha.vars]
  refine .andThen (modifyTables (fun b b' hb => ?_) fun _ => .nil rfl fun _ => rfl) fun _ =>
    .pure rfl
  exact { hb with vars := congrArg (Array.push · v) hb.vars }

theorem declare (body : FunctionId) (name : String) (kind : VariableKind) :
    Restricts Eq (Resolve.declare body name kind) (Resolve.declare body name kind) :=
  (addVariable _).andThen fun _ => (modifyBody body fun _ _ => rfl).andThen fun _ => .pure rfl

theorem declareOnce (body : FunctionId) (name : String) (kind : VariableKind) :
    Restricts Eq (Resolve.declareOnce body name kind) (Resolve.declareOnce body name kind) := by
  refine tables.bind fun a a' ha => ?_
  rw [ha.declared]
  split
  · exact .pure rfl
  · exact declare body name kind

theorem capture (id : VariableId) : Restricts Eq (Resolve.capture id) (Resolve.capture id) := by
  refine tables.bind fun a a' ha => ?_
  rw [ha.var]
  dsimp only
  split
  · exact modifyBody _ fun b strict => by split <;> rfl
  · exact .pure rfl

theorem captureForeign (body : FunctionId) : ∀ ws : List VariableId,
    Restricts Eq (Resolve.captureForeign body ws) (Resolve.captureForeign body ws)
  | [] => .pure rfl
  | w :: rest => by
    unfold Resolve.captureForeign
    refine tables.bind fun a a' ha => ?_
    rw [ha.var]
    dsimp only
    split
    · exact (capture w).andThen fun _ => captureForeign body rest
    · exact captureForeign body rest

theorem lookedUp (name : String) (found : Option (VariableId × Bool)) :
    Restricts Eq (Resolve.lookedUp name found) (Resolve.lookedUp name found) := by
  unfold Resolve.lookedUp
  split
  · dsimp only
    split
    · exact (capture _).andThen fun _ => .pure rfl
    · exact .pure rfl
  · exact declareOnce 0 name .global

theorem resolve (env : Environment) (name : String) :
    Restricts Eq (Resolve.resolve env name) (Resolve.resolve env name) := by
  refine tables.bind fun a a' ha => ?_
  rw [ha.find]
  refine (lookedUp name _).andThen fun target => ?_
  split
  · exact .pure rfl
  · refine (captureForeign _ _).andThen fun _ => tables.bind fun b b' hb => ?_
    simp only [hb.var]
    exact addVariable _

theorem identifier (env : Environment) (i : Identifier) :
    Restricts Eq (Resolve.identifier env i) (Resolve.identifier env i) :=
  (resolve env i.name).andThen fun _ => setReference i.id _

/-! ### Checks -/

theorem isStrict (env : Environment) :
    Restricts (fun strict strict' => strict = true → strict' = true) (Resolve.isStrict env)
      (Resolve.isStrict env) :=
  tables.bind fun _ _ ha => .pure ha.strict

/-- What only strict code may not do is checked more often. -/
theorem check {strict strict' : Bool} (h : strict = true → strict' = true) (e : StaticError) :
    Restricts Eq (if strict' then MonadExcept.throw e else Pure.pure ())
      (if strict then MonadExcept.throw e else Pure.pure ()) := by
  split
  · exact .throw e
  · rename_i hs'
    rw [if_neg fun hs => hs' (h hs)]
    exact .pure rfl

theorem checkName {strict strict' : Bool} (h : strict = true → strict' = true) (name : String) :
    Restricts Eq (Resolve.checkName strict' name) (Resolve.checkName strict name) := by
  refine check (fun hs => ?_) _
  rw [Bool.and_eq_true] at hs ⊢
  exact ⟨h hs.1, hs.2⟩

theorem checkParameters : ∀ (seen : List String) (ps : List Identifier),
    Restricts Eq (Resolve.checkParameters seen ps) (Resolve.checkParameters seen ps)
  | _, [] => .pure rfl
  | seen, p :: rest => by
    unfold Resolve.checkParameters
    refine (checkName id p.name).andThen fun _ => ?_
    split
    · exact .throw_bind _ _
    · exact checkParameters _ rest

/-- A check that only strict code makes. -/
theorem skip {c : Resolve Unit} {g : Unit → Resolve α} (hc : Restricts Eq c (Pure.pure ()))
    (hg : Restricts R (g ()) x) : Restricts R (c >>= g) x := by
  have h := hc.andThen (f := fun _ => x) fun _ => hg
  rwa [pure_bind] at h

theorem checkName_skip (name : String) :
    Restricts Eq (Resolve.checkName true name) (Pure.pure ()) :=
  @checkName false true nofun name

theorem checkParameters_skip : ∀ (seen : List String) (ps : List Identifier),
    Restricts Eq (Resolve.checkParameters seen ps) (Pure.pure ())
  | _, [] => .pure rfl
  | seen, p :: rest => by
    unfold Resolve.checkParameters
    refine .skip (checkName_skip p.name) ?_
    split
    · exact .throw_bind _ _
    · exact checkParameters_skip _ rest

theorem checkTarget (env : Environment) (t : Target) :
    Restricts Eq (Resolve.checkTarget env t) (Resolve.checkTarget env t) := by
  cases t with
  | identifier i => exact (isStrict env).bind fun _ _ h => checkName h i.name
  | member m => exact .pure rfl

/-! ### Bodies -/

theorem declareParameters (body : FunctionId) : ∀ (position : Nat) (ps : List Identifier),
    Restricts Eq (Resolve.declareParameters body position ps)
      (Resolve.declareParameters body position ps)
  | _, [] => .pure rfl
  | position, p :: rest =>
    (declareOnce body p.name .parameter).andThen fun _ => (modifyVariable _ _).andThen fun _ =>
      (modifyBody body fun _ _ => rfl).andThen fun _ => (setReference p.id _).andThen fun _ =>
        declareParameters body (position + 1) rest

theorem declareFunctions (body : FunctionId) (kind : VariableKind) : ∀ fs : List Func,
    Restricts Eq (Resolve.declareFunctions body kind fs) (Resolve.declareFunctions body kind fs)
  | [] => .pure rfl
  | f :: rest => by
    unfold Resolve.declareFunctions
    refine (declareOnce body f.name kind).andThen fun v => ?_
    split
    · exact (modifyVariable v _).andThen fun _ => (setReference _ v).andThen fun _ =>
        declareFunctions body kind rest
    · exact declareFunctions body kind rest

theorem declareVariables (body : FunctionId) (kind : VariableKind) : ∀ names : List String,
    Restricts Eq (Resolve.declareVariables body kind names)
      (Resolve.declareVariables body kind names)
  | [] => .pure rfl
  | name :: rest => (declareOnce body name kind).andThen fun _ => declareVariables body kind rest

theorem declareSelf (id : FunctionId) (name : Identifier) :
    Restricts Eq (Resolve.declareSelf id name) (Resolve.declareSelf id name) := by
  refine tables.bind fun a a' ha => ?_
  rw [ha.declared]
  split
  · exact (declare id name.name .local).andThen fun v => (modifyVariable v _).andThen fun _ =>
      (modifyBody id fun _ _ => rfl).andThen fun _ => setReference name.id v
  · exact .pure rfl

theorem declareBody (f : Func) : Restricts Eq (Resolve.declareBody f) (Resolve.declareBody f) := by
  have hrest : Restricts Eq (declareLocals f) (declareLocals f) := by
    refine (declareVariables f.id .local _).andThen fun _ =>
      (declareFunctions f.id .local _).andThen fun _ => ?_
    split
    · exact declareSelf f.id _
    · exact .pure rfl
  unfold Resolve.declareBody
  refine (declareParameters f.id 0 f.params).andThen fun _ => tables.bind fun a a' ha => ?_
  rw [ha.declared]
  exact .ite ((declare f.id "arguments" .arguments).andThen fun _ =>
    (modifyBody f.id fun _ _ => rfl).andThen fun _ => hrest) hrest

theorem addSynthetic (env : Environment) (v : Variable) :
    Restricts Eq (Resolve.addSynthetic env v) (Resolve.addSynthetic env v) :=
  (addVariable v).andThen fun _ => (modifyBody _ fun _ _ => rfl).andThen fun _ => .pure rfl

/-- A `catch` clause is entered inside of the same body. -/
theorem enterCatch (env : Environment) (param : Identifier) :
    Restricts (fun inner inner' => inner' = inner ∧ current inner = current env)
      (Resolve.enterCatch env param) (Resolve.enterCatch env param) :=
  (isStrict env).bind fun _ _ h => (checkName h param.name).andThen fun _ =>
    freshNumber.andThen fun _ =>
    (addSynthetic env _).andThen fun _ => (setReference param.id _).andThen fun _ =>
      .pure ⟨rfl, current_openScope env _⟩

/-- A `with` statement is entered inside of the same body. -/
theorem enterWith (env : Environment) (node : NodeId) :
    Restricts (fun inner inner' => inner' = inner ∧ current inner = current env)
      (Resolve.enterWith env node) (Resolve.enterWith env node) :=
  freshNumber.andThen fun _ => (addSynthetic env _).andThen fun _ =>
    (setWithVariable node _).andThen fun _ =>
    .pure ⟨rfl, current_openScope env _⟩

end Restricts

/-! ### Functions -/

/-- The checks of a function that is strict. -/
def checks (strict : Bool) (f : Func) : Resolve Unit :=
  if strict then do
    match f.identifier? with
    | some name => checkName true name.name
    | none => pure ()
    checkParameters [] f.params
  else pure ()

/-- Opens the body of a function whose names are checked. -/
def openBody (env : Environment) (strict : Bool) (f : Func) : Resolve Environment := do
  modifyBody f.id fun b => { b with parent := some (current env), strict, name := f.name }
  declareBody f
  return ⟨f.id, []⟩ :: env

theorem enter_eq (env : Environment) (f : Func) : enter env f = (do
    let strict ← isStrict env
    checks (f.strict || strict) f
    openBody env (f.strict || strict) f) := by
  unfold enter checks openBody
  refine congrArg (isStrict env >>= ·) (funext fun strict => ?_)
  dsimp only
  split
  · cases f.identifier? <;> simp
  · simp

theorem restricts_checks {strict strict' : Bool} (h : strict = true → strict' = true) (f : Func) :
    Restricts Eq (checks strict' f) (checks strict f) := by
  cases strict' with
  | false =>
    obtain rfl := Bool.eq_false_iff.mpr (mt h Bool.false_ne_true)
    exact .pure rfl
  | true =>
    unfold checks
    cases strict with
    | true =>
      cases f.identifier? with
      | some name => exact (Restricts.checkName id _).andThen fun _ => .checkParameters [] f.params
      | none => exact .checkParameters [] f.params
    | false =>
      cases f.identifier? with
      | some name => exact .skip (.checkName_skip _) (.checkParameters_skip [] f.params)
      | none => exact .checkParameters_skip [] f.params

/-- A body is opened with the flag that it is given. -/
theorem openBody_run {a a' : Analysis} (ha : a.Loosens a') {env : Environment} {f : Func} {n : Nat}
    {strict strict' : Func → Bool} (h : strict f = true → strict' f = true)
    (hbound : f.id < a.bodies.size) {inner : Environment} {s' : Resolving}
    (hrun : (openBody env (strict' f) f).run ⟨a', n⟩ = .ok (inner, s')) :
    inner = ⟨f.id, []⟩ :: env ∧ ∃ b, (openBody env (strict f) f).run ⟨a, n⟩ =
      .ok (inner, ⟨b, s'.madeUp⟩) ∧
      b.Loosens s'.analysis ∧ a.Flags b [f] strict ∧ a'.Flags s'.analysis [f] strict' := by
  have hflags (a : Analysis) (hbound : f.id < a.bodies.size) (strict : Func → Bool) :
      a.Flags { a with bodies := a.bodies.modify f.id fun b =>
        { b with parent := some (current env), strict := strict f, name := f.name } } [f]
          strict := by
    refine ⟨by simp, fun g hg => ?_, fun id hid => ?_⟩
    · rw [List.mem_singleton.mp hg, a.body_modify_self hbound]
    · rw [a.body_modify_of_ne (hid f (List.mem_singleton_self f)).symm]
  have hopened := @Analysis.Loosens.modifyBody _ _ ha f.id
    (fun b => { b with parent := some (current env), strict := strict f, name := f.name })
    (fun b => { b with parent := some (current env), strict := strict' f, name := f.name })
    (by rintro b _ ⟨_, rfl, -⟩; exact ⟨_, rfl, h⟩)
  obtain ⟨_, b, hb, ⟨rfl, hinner⟩, hloosens, hkept, hkept'⟩ :=
    (Restricts.declareBody f).andThen (f := fun _ => Pure.pure (⟨f.id, []⟩ :: env : Environment))
      (fun _ => .pure (R := fun r r' => r = r' ∧ r' = ⟨f.id, []⟩ :: env) ⟨rfl, rfl⟩) hopened hrun
  exact ⟨hinner, b, hb, hloosens, (hflags a hbound strict).append (.of_nil hkept) nofun,
    (hflags a' (ha.size ▸ hbound) strict').append (.of_nil hkept') nofun⟩

/-- Where functions may stand: in a body of their own number, with room for theirs. -/
structure Fit (a : Analysis) (body : FunctionId) (fs : List Func) : Prop where
  nodup : (fs.map Func.id).Nodup
  apart : ∀ f ∈ fs, f.id ≠ body
  bound : ∀ f ∈ fs, f.id < a.bodies.size
  inherit : Func.Inherit (a.body body).strict fs

/-- In strict code a computation succeeds only where it does in any code, with the same tables but
for strictness.  Functions get the strictness that they were given, and in strict code all are
strict. -/
def Settles (body : FunctionId) (fs : List Func) (x : Resolve Unit) : Prop :=
  ∀ ⦃a a' : Analysis⦄ ⦃n : Nat⦄ ⦃r : Unit⦄ ⦃s' : Resolving⦄, a.Loosens a' → Fit a body fs →
    (a'.body body).strict = true → x.run ⟨a', n⟩ = .ok (r, s') →
      ∃ b, x.run ⟨a, n⟩ = .ok ((), ⟨b, s'.madeUp⟩) ∧ b.Loosens s'.analysis ∧
        a.Flags b fs Func.strict ∧ a'.Flags s'.analysis fs fun _ => true

namespace Settles

variable {body : FunctionId} {fs fs' : List Func} {x y : Resolve Unit}

theorem of_restricts (h : Restricts Eq x x) : Settles body [] x := by
  intro a a' n r s' ha _ _ hx
  obtain ⟨_, b, hr, -, hb, hflags, hflags'⟩ := h ha hx
  exact ⟨b, hr, hb, hflags, .of_nil hflags'⟩

theorem pure : Settles body [] (Pure.pure ()) :=
  .of_restricts (.pure rfl)

/-- What does nothing to the flags may come first. -/
theorem step {α : Type} {c : Resolve α} {R : α → α → Prop} {g : α → Resolve Unit}
    (hc : Restricts R c c) (hR : ∀ r r', R r r' → r' = r)
    (hg : ∀ r, R r r → Settles body fs (g r)) :
    Settles body fs (c >>= g) := by
  intro a a' n r s' ha hfit hstrict hrun
  obtain ⟨r', t', hc', hrun⟩ := run_bind_eq_ok hrun
  obtain ⟨r, b, hr, hrel, hb, hflags, hflags'⟩ := hc ha hc'
  obtain rfl := hR r r' hrel
  have hbody := hflags.outside body nofun
  have hfit' : Fit b body fs :=
    ⟨hfit.nodup, hfit.apart, hflags.size ▸ hfit.bound, hbody ▸ hfit.inherit⟩
  obtain ⟨c, hc, hloosens, hmore, hmore'⟩ :=
    hg r' hrel hb hfit' ((hflags'.outside body nofun).trans hstrict) hrun
  exact ⟨c, (run_bind_of_ok hr).trans hc, hloosens, hflags.trans hmore, hflags'.trans hmore'⟩

/-- A check first. -/
theorem andThen {c : Resolve Unit} {g : Unit → Resolve Unit} (hc : Restricts Eq c c)
    (hg : Settles body fs (g ())) : Settles body fs (c >>= g) :=
  step hc (fun _ _ h => h.symm) fun _ _ => hg

/-- Two pieces of syntax one after the other. -/
theorem bind (hx : Settles body fs x) (hy : Settles body fs' y) :
    Settles body (fs ++ fs') (x >>= fun _ => y) := by
  intro a a' n r s' ha hfit hstrict hrun
  obtain ⟨r', t', hx', hrun⟩ := run_bind_eq_ok hrun
  have hnodup := hfit.nodup
  have happart := hfit.apart
  have hbound := hfit.bound
  have hinherit := hfit.inherit
  simp only [List.map_append, List.nodup_append, List.mem_append, or_imp, forall_and,
    List.forall_mem_map, Func.Inherit.append] at hnodup happart hbound hinherit
  obtain ⟨b, hr, hb, hflags, hflags'⟩ :=
    hx ha ⟨hnodup.1, happart.1, hbound.1, hinherit.1⟩ hstrict hx'
  have hfit' : Fit b body fs' :=
    ⟨hnodup.2.1, happart.2, hflags.size ▸ hbound.2, hflags.outside body happart.1 ▸ hinherit.2⟩
  obtain ⟨c, hc, hloosens, hmore, hmore'⟩ :=
    hy hb hfit' ((hflags'.outside body happart.1).trans hstrict) hrun
  have hdisjoint : ∀ f ∈ fs, ∀ g ∈ fs', g.id ≠ f.id := fun f hf g hg => (hnodup.2.2 f hf g hg).symm
  exact ⟨c, (run_bind_of_ok hr).trans hc, hloosens, hflags.append hmore hdisjoint,
    hflags'.append hmore' hdisjoint⟩

/-- What strict code may not do is not done. -/
theorem rejected {α : Type} {env : Environment} (henv : current env = body) {e : StaticError}
    {g : α → Resolve Unit} :
    Settles body fs (isStrict env >>= fun strict => if strict then MonadExcept.throw e >>= g
      else x) := by
  intro a a' n r s' ha hfit hstrict hrun
  change (if (a'.body (current env)).strict = true then MonadExcept.throw e >>= g
    else x).run ⟨a', n⟩ = .ok (r, s') at hrun
  rw [henv, if_pos hstrict] at hrun
  cases hrun

/-- A function, of which the statements follow. -/
theorem function {env : Environment} (henv : current env = body) {f : Func}
    {k : Environment → Resolve Unit} (hk : Settles f.id f.inside (k (⟨f.id, []⟩ :: env))) :
    Settles body (f :: f.inside) (enter env f >>= k) := by
  intro a a' n r s' ha hfit hstrict hrun
  subst henv
  have hnodup := List.nodup_cons.mp hfit.nodup
  have happart := List.forall_mem_cons.mp hfit.apart
  have hbound := List.forall_mem_cons.mp hfit.bound
  have hinherit := List.forall_mem_cons.mp hfit.inherit
  have hdistinct : ∀ g ∈ f.inside, g.id ≠ f.id := fun g hg h =>
    hnodup.1 (h ▸ List.mem_map_of_mem hg)
  -- the flag that the function was given is the one that it gets
  have hgiven : (f.strict || (a.body (current env)).strict) = f.strict := by
    simpa [Bool.or_eq_left_iff_imp] using hinherit.1.1
  rw [enter_eq] at hrun ⊢
  simp only [bind_assoc] at hrun ⊢
  obtain ⟨_, _, hread, hrun⟩ := run_bind_eq_ok hrun
  cases hread
  obtain ⟨_, t₁, hchecks, hrun⟩ := run_bind_eq_ok hrun
  obtain ⟨inner, t₂, hopen, hrun⟩ := run_bind_eq_ok hrun
  rw [hstrict, Bool.or_true] at hchecks hopen
  obtain ⟨_, b, hr, -, hb, hflags, hflags'⟩ := restricts_checks (fun _ => rfl) f ha hchecks
  obtain ⟨rfl, c, hopened, hc, hset, hset'⟩ :=
    @openBody_run _ _ hb _ _ _ Func.strict (fun _ => true) (fun _ => rfl)
      (hflags.size ▸ hbound.1) _ _ hopen
  have hflag := hset.inside f (List.mem_singleton_self f)
  have hfit' : Fit c f.id f.inside :=
    ⟨hnodup.2, hdistinct, hset.size ▸ hflags.size ▸ hbound.2,
      hflag ▸ fun g hg => ⟨hinherit.1.2 g hg, (hinherit.2 g hg).2⟩⟩
  obtain ⟨d, hd, hloosens, hmore, hmore'⟩ :=
    hk hc hfit' (hset'.inside f (List.mem_singleton_self f)) hrun
  refine ⟨d, ?_, hloosens, ?_, ?_⟩
  · rw [run_bind_of_ok (t := ⟨a, n⟩) (r := (a.body (current env)).strict) rfl, hgiven,
      run_bind_of_ok hr, run_bind_of_ok hopened, hd]
  · exact hflags.trans (hset.append hmore (by simpa using hdistinct))
  · exact hflags'.trans (hset'.append hmore' (by simpa using hdistinct))

theorem perm (h : Settles body fs x) (hfs : fs.Perm fs') : Settles body fs' x := by
  intro a a' n r s' ha hfit hstrict hrun
  have hmem (f : Func) : f ∈ fs ↔ f ∈ fs' := hfs.mem_iff
  have hfit' : Fit a body fs :=
    ⟨(hfs.map Func.id).nodup_iff.mpr hfit.nodup, fun f hf => hfit.apart f ((hmem f).mp hf),
      fun f hf => hfit.bound f ((hmem f).mp hf), fun f hf => hfit.inherit f ((hmem f).mp hf)⟩
  obtain ⟨b, hb, hloosens, hflags, hflags'⟩ := h ha hfit' hstrict hrun
  exact ⟨b, hb, hloosens, hflags.perm hfs, hflags'.perm hfs⟩

theorem then_pure (h : Settles body fs x) : Settles body fs (x >>= fun _ => Pure.pure ()) := by
  have hx : (x >>= fun _ => Pure.pure ()) = x := bind_pure_unit
  rwa [hx]

/-- A scope inside of the same body. -/
theorem scope {env : Environment} (henv : current env = body) {c : Resolve Environment}
    (hc : Restricts (fun inner inner' => inner' = inner ∧ current inner = current env) c c)
    {g : Environment → Resolve Unit} (hg : ∀ inner, Settles (current inner) fs (g inner)) :
    Settles body fs (c >>= g) :=
  step hc (fun _ _ h => h.1) fun inner h => (h.2.trans henv) ▸ hg inner

end Settles

/-! ### Statements and expressions -/

theorem stmt_with (env : Environment) (span : Span) (id : NodeId) (object : Expr) (body : Stmt) :
    stmt env (.with span id object body) = (do
      if ← isStrict env then throw .withInStrictMode
      expr env object
      let inner ← enterWith env id
      stmt inner body) :=
  rfl

mutual

/-- Strictness only restricts what expressions are accepted. -/
theorem settles_expr (env : Environment) : ∀ e : Expr, Settles (current env) e.funcs (expr env e)
  | .literal .. => .pure
  | .this _ => .pure
  | .identifier i => .of_restricts (.identifier env i)
  | .array _ elements => settles_elementList env elements
  | .object _ properties => settles_propertyList env properties
  | .function f => settles_func env f
  | .unary _ op argument => by
    unfold expr
    split
    · exact .rejected rfl
    · exact settles_expr env argument
  | .update _ _ t _ => .andThen (.checkTarget env t) (settles_target env t)
  | .binary _ _ left right => (settles_expr env left).bind (settles_expr env right)
  | .logical _ _ left right => (settles_expr env left).bind (settles_expr env right)
  | .assign _ _ t value =>
    .andThen (.checkTarget env t) ((settles_target env t).bind (settles_expr env value))
  | .conditional _ test consequent alternate =>
    (settles_expr env test).bind ((settles_expr env consequent).bind (settles_expr env alternate))
  | .call _ callee arguments => (settles_expr env callee).bind (settles_exprList env arguments)
  | .construct _ callee arguments => (settles_expr env callee).bind (settles_exprList env arguments)
  | .sequence _ expressions => settles_exprList env expressions
  | .member m => settles_member env m

theorem settles_exprList (env : Environment) : ∀ es : List Expr,
    Settles (current env) (exprFuncs es) (exprList env es)
  | [] => .pure
  | e :: rest => (settles_expr env e).bind (settles_exprList env rest)

theorem settles_elementList (env : Environment) : ∀ es : List (Option Expr),
    Settles (current env) (elementFuncs es) (elementList env es)
  | [] => .pure
  | none :: rest => settles_elementList env rest
  | some e :: rest => (settles_expr env e).bind (settles_elementList env rest)

theorem settles_propertyList (env : Environment) : ∀ ps : List Property,
    Settles (current env) (propertyFuncs ps) (propertyList env ps)
  | [] => .pure
  | .mk _ _ value :: rest => (settles_expr env value).bind (settles_propertyList env rest)

theorem settles_member (env : Environment) :
    ∀ m : Member, Settles (current env) m.funcs (member env m)
  | .named _ object _ => settles_expr env object
  | .computed _ object property => (settles_expr env object).bind (settles_expr env property)

theorem settles_target (env : Environment) :
    ∀ t : Target, Settles (current env) t.funcs (target env t)
  | .identifier i => .of_restricts (.identifier env i)
  | .member m => settles_member env m

theorem settles_func (env : Environment) : ∀ f : Func,
    Settles (current env) (f :: f.inside) (func env f)
  | .mk _ id _ _ _ _ _ body => .function rfl (settles_stmtList (⟨id, []⟩ :: env) body)

theorem settles_stmtList (env : Environment) : ∀ ss : List Stmt,
    Settles (current env) (stmtFuncs ss) (stmtList env ss)
  | [] => .pure
  | s :: rest => (settles_stmt env s).bind (settles_stmtList env rest)

theorem settles_option (env : Environment) : ∀ e : Option Expr,
    Settles (current env) (optionFuncs e) (option env e)
  | none => .pure
  | some e => settles_expr env e

theorem settles_forInit (env : Environment) : ∀ init : ForInit,
    Settles (current env) init.funcs (forInit env init)
  | .nothing => .pure
  | .declaration _ ds => settles_declaratorList env ds
  | .expression e => settles_expr env e

theorem settles_forInTarget (env : Environment) : ∀ left : ForInTarget,
    Settles (current env) left.funcs (forInTarget env left)
  | .declaration i => .of_restricts (.identifier env i)
  | .target t => settles_target env t

theorem settles_declaratorList (env : Environment) : ∀ ds : List Declarator,
    Settles (current env) (declaratorFuncs ds) (declaratorList env ds)
  | [] => .pure
  | .mk _ name none :: rest => .andThen (.identifier env name) (settles_declaratorList env rest)
  | .mk _ name (some init) :: rest => .andThen (.identifier env name)
    ((settles_expr env init).bind (settles_declaratorList env rest))

theorem settles_clauseList (env : Environment) : ∀ cs : List SwitchClause,
    Settles (current env) (clauseFuncs cs) (clauseList env cs)
  | [] => .pure
  | .mk _ none body :: rest => (settles_stmtList env body).bind (settles_clauseList env rest)
  | .mk _ (some test) body :: rest =>
    (settles_expr env test).bind ((settles_stmtList env body).bind (settles_clauseList env rest))

theorem settles_block (env : Environment) : ∀ b : Block, Settles (current env) b.funcs (block env b)
  | .mk _ body => settles_stmtList env body

theorem settles_handler (env : Environment) : ∀ h : Handler,
    Settles (current env) h.funcs (handler env h)
  | .mk _ param body => .scope rfl (.enterCatch env param) fun inner => settles_block inner body

/-- Strictness only restricts what statements are accepted. -/
theorem settles_stmt (env : Environment) : ∀ s : Stmt, Settles (current env) s.funcs (stmt env s)
  | .expression _ e => settles_expr env e
  | .block b => settles_block env b
  | .empty _ | .debugger _ | .brk .. | .cont .. | .ret _ none => .pure
  | .ret _ (some e) => settles_expr env e
  | .labeled _ _ body => settles_stmt env body
  | .conditional _ test consequent none =>
    (settles_expr env test).bind (settles_stmt env consequent)
  | .conditional _ test consequent (some alternate) =>
    (settles_expr env test).bind ((settles_stmt env consequent).bind (settles_stmt env alternate))
  | .switch _ discriminant clauses =>
    (settles_expr env discriminant).bind (settles_clauseList env clauses)
  | .throw _ e => settles_expr env e
  | .tryCatch _ b none none => (settles_block env b).then_pure
  | .tryCatch _ b none (some f) => (settles_block env b).bind (settles_block env f)
  | .tryCatch _ b (some h) none => (settles_block env b).bind (settles_handler env h).then_pure
  | .tryCatch _ b (some h) (some f) =>
    (settles_block env b).bind ((settles_handler env h).bind (settles_block env f))
  | .while _ test body => (settles_expr env test).bind (settles_stmt env body)
  | .doWhile _ test body =>
    ((settles_expr env test).bind (settles_stmt env body)).perm List.perm_append_comm
  | .for _ init test update body => by
    rw [stmt_for]
    exact (settles_forInit env init).bind ((settles_option env test).bind
      ((settles_option env update).bind (settles_stmt env body)))
  | .forIn _ left right body => by
    rw [stmt_forIn]
    exact (settles_forInTarget env left).bind
      ((settles_expr env right).bind (settles_stmt env body))
  | .with _ id object body => by
    rw [stmt_with]
    exact .rejected rfl
  | .declaration _ ds => settles_declaratorList env ds
  | .function f => by
    have h := settles_func (hoistedEnvironment env) f
    rwa [current_hoistedEnvironment] at h

end

/-! ### Scripts -/

/-- What is resolved after the body of a script has got its flag. -/
def contents (p : Program) : Resolve Unit := do
  declareVariables 0 .global (declaredNames p.body)
  declareFunctions 0 .global (bodyFunctions p.body)
  stmtList [⟨0, []⟩] p.body

theorem settles_contents (p : Program) : Settles 0 p.funcs (contents p) :=
  .andThen (.declareVariables 0 .global _)
    (.andThen (.declareFunctions 0 .global _) (settles_stmtList [⟨0, []⟩] p.body))

/-- The functions of a script have all ids but that of the script itself. -/
theorem mem_ids_iff {p : Program} (hn : p.WellNumbered) {id : FunctionId} :
    id ∈ p.funcs.map Func.id ↔ 1 ≤ id ∧ id < p.functionCount := by
  rw [Program.funcs, ← stmtFuncs_ids]
  refine hn.functions.mem_iff.trans ?_
  rw [List.mem_range'_1, Nat.add_sub_cancel' hn.functionCount_pos]

/-- The functions of a script may stand in it. -/
theorem fit_of_wellNumbered {p : Program} (hn : p.WellNumbered) (hi : Func.Inherit p.strict p.funcs)
    {a : Analysis} (hsize : a.bodies.size = p.functionCount)
    (hstrict : (a.body 0).strict = p.strict) :
    Fit a 0 p.funcs where
  nodup := by
    rw [Program.funcs, ← stmtFuncs_ids]
    exact hn.functions.nodup_iff.mpr List.nodup_range'
  apart f hf := Nat.ne_of_gt ((mem_ids_iff hn).mp (List.mem_map_of_mem hf)).1
  bound f hf := hsize ▸ ((mem_ids_iff hn).mp (List.mem_map_of_mem hf)).2
  inherit := hstrict ▸ hi

/-- A body belongs to the script or to one of its functions. -/
theorem exists_func {p : Program} (hn : p.WellNumbered) {id : FunctionId}
    (hid : id < p.functionCount) :
    id = 0 ∨ ∃ f ∈ p.funcs, f.id = id :=
  (Nat.eq_zero_or_pos id).imp_right fun h => List.mem_map.mp ((mem_ids_iff hn).mpr ⟨h, hid⟩)

/-- The tables before a script is resolved, with the flag of the script. -/
def start (strict : Bool) (p : Program) : Analysis :=
  let a := Analysis.initial p.functionCount p.nodeCount
  { a with bodies := a.bodies.modify 0 fun b =>
    { b with strict := p.strict || strict, name := "%program" } }

theorem size_start (strict : Bool) {p : Program} (hn : p.WellNumbered) :
    (start strict p).bodies.size = p.functionCount := by
  simp [start, Analysis.initial, Nat.max_eq_left hn.functionCount_pos]

theorem strict_start (strict : Bool) (p : Program) :
    ((start strict p).body 0).strict = (p.strict || strict) := by
  have hbound : 0 < (Analysis.initial p.functionCount p.nodeCount).bodies.size := by
    simp only [Analysis.initial, List.size_toArray, List.length_map, List.length_range]
    exact Nat.le_max_right _ _
  rw [start, Analysis.body_modify_self _ hbound]

/-- A strict script is accepted only if the script is accepted as it is.  Its tables are the same,
with all bodies strict, and as it is the bodies are strict as the script says. -/
theorem program_strict {p : Program} (hn : p.WellNumbered) (hi : Func.Inherit p.strict p.funcs)
    {a' : Analysis} (h : program true p = .ok a') :
    ∃ a, program false p = .ok a ∧ a' = a.strictly ∧ (a.body 0).strict = p.strict ∧
      (∀ f ∈ p.funcs, (a.body f.id).strict = f.strict) ∧ a.bodies.size = p.functionCount := by
  have hrun (strict : Bool) : (script strict p).run ⟨.initial p.functionCount p.nodeCount, 0⟩ =
      (contents p).run ⟨start strict p, 0⟩ := rfl
  simp only [program, hrun] at h ⊢
  split at h
  swap
  · cases h
  rename_i s' hs'
  obtain rfl := Except.ok.inj h
  have hloosens : (start false p).Loosens (start true p) := by
    refine (Analysis.Loosens.refl _).modifyBody 0 ?_
    rintro b _ ⟨_, rfl, -⟩
    exact ⟨_, rfl, by simp⟩
  have hfit := fit_of_wellNumbered hn hi (size_start false hn) (by simp [strict_start false p])
  have hstrict : ((start true p).body 0).strict = true := by simp [strict_start true p]
  have hzero : ∀ f ∈ p.funcs, f.id ≠ 0 := hfit.apart
  obtain ⟨a, ha, hsame, hflags, hflags'⟩ := settles_contents p hloosens hfit hstrict hs'
  have hsize : a.bodies.size = p.functionCount := hflags.size.trans (size_start false hn)
  refine ⟨a, by rw [ha], hsame.eq_strictly fun id hid => ?_, ?_, hflags.inside, hsize⟩
  · rcases exists_func hn (hsize ▸ hid) with rfl | ⟨f, hf, rfl⟩
    · exact (hflags'.outside 0 hzero).trans hstrict
    · exact hflags'.inside f hf
  · rw [hflags.outside 0 hzero, strict_start false p, Bool.or_false]

end Resolve

/-! ### Records and types -/

namespace Analysis

variable (a : Analysis)

@[simp] theorem var_strictly (v : VariableId) : a.strictly.var v = a.var v :=
  rfl

@[simp] theorem size_strictly : a.strictly.bodies.size = a.bodies.size := by
  simp [strictly]

theorem body_strictly (id : FunctionId) :
    a.strictly.body id = { a.body id with strict := (a.strictly.body id).strict } := by
  rcases Nat.lt_or_ge id a.bodies.size with h | h <;> simp [body, strictly, h]

@[simp] theorem closedOver_strictly (id : FunctionId) :
    (a.strictly.body id).closedOver = (a.body id).closedOver := by
  rw [body_strictly]

@[simp] theorem parent_strictly (id : FunctionId) :
    (a.strictly.body id).parent = (a.body id).parent := by
  rw [body_strictly]

@[simp] theorem layout_strictly (id : FunctionId) :
    (a.strictly.body id).layout = (a.body id).layout := by
  rw [body_strictly]

/-- Whether a body is strict does not matter for what else is noted about it. -/
theorem strictly_modify (id : FunctionId) {f : BodyInfo → BodyInfo}
    (h : ∀ b : BodyInfo, f { b with strict := true } = { f b with strict := true }) :
    a.strictly.bodies.modify id f = (a.bodies.modify id f).map fun b =>
      { b with strict := true } := by
  refine Array.ext (by simp) fun i hi hi' => ?_
  simp only [strictly, Array.getElem_modify, Array.getElem_map]
  split
  · exact h _
  · rfl

theorem capturingBody?_strictly (fuel : Nat) (id : Option FunctionId) :
    a.strictly.capturingBody? fuel id = a.capturingBody? fuel id := by
  induction fuel generalizing id with
  | zero => rfl
  | succ fuel ih => cases id <;> simp [capturingBody?, ih]

theorem enclosingLayout?_strictly (id : FunctionId) :
    a.strictly.enclosingLayout? id = a.enclosingLayout? id := by
  simp [enclosingLayout?, capturingAncestor?, capturingBody?_strictly]

theorem addLayout_strictly (id : FunctionId) :
    a.strictly.addLayout id = (a.addLayout id).strictly := by
  have hname : a.strictly.fieldName = a.fieldName := rfl
  unfold addLayout
  rw [closedOver_strictly, hname, enclosingLayout?_strictly]
  dsimp only
  split
  · rfl
  · rw [a.strictly_modify id fun _ => rfl]
    rfl

theorem linkParentLayout_strictly (id : FunctionId) :
    a.strictly.linkParentLayout id = (a.linkParentLayout id).strictly := by
  unfold linkParentLayout
  dsimp only
  rw [enclosingLayout?_strictly, a.strictly_modify id fun _ => rfl]
  rfl

theorem placeVariable_strictly (layout : LayoutId) (v : VariableId) :
    placeVariable layout a.strictly v = (placeVariable layout a v).strictly := by
  have hlayout : a.strictly.layout layout = a.layout layout := rfl
  have hname : a.strictly.fieldName v = a.fieldName v := rfl
  unfold placeVariable
  rw [hlayout, hname]
  split <;> rfl

theorem placeVariables_strictly (id : FunctionId) :
    a.strictly.placeVariables id = (a.placeVariables id).strictly := by
  unfold placeVariables
  rw [layout_strictly, closedOver_strictly]
  split
  · exact List.foldl_hom strictly fun b v => b.placeVariable_strictly _ v
  · rfl

theorem withLayouts_strictly : a.strictly.withLayouts = a.withLayouts.strictly := by
  unfold withLayouts
  dsimp only
  rw [size_strictly, List.foldl_hom strictly fun b id => b.addLayout_strictly id,
    List.foldl_hom strictly fun b id => b.linkParentLayout_strictly id,
    List.foldl_hom strictly fun b id => b.placeVariables_strictly id]

theorem seededTypes_strictly : a.strictly.seededTypes = a.seededTypes := by
  have hsynthetic : a.strictly.bodies.toList.flatMap (·.synthetic) =
      a.bodies.toList.flatMap (·.synthetic) := by
    simp [strictly, List.flatMap_map]
  unfold seededTypes
  rw [hsynthetic]
  rfl

theorem inferPasses_strictly (body : List Stmt) (fuel : Nat) (types : Array ValueType) :
    inferPasses a.strictly body fuel types = inferPasses a body fuel types := by
  induction fuel generalizing types with
  | zero => rfl
  | succ fuel ih => simp only [inferPasses, ih]; rfl

theorem withTypes_strictly (body : List Stmt) :
    a.strictly.withTypes body = (a.withTypes body).strictly := by
  unfold withTypes
  rw [inferPasses_strictly, seededTypes_strictly]
  rfl

end Analysis

/-- Taking a script as strict only rejects more scripts.  What is accepted is accepted as it is,
with the same tables but for strictness: as it is the script and its functions are strict as the
source says, and in a script that is taken as strict all of them are. -/
theorem Program.strict_restricts {source : String} {p : Program} {specialize : Bool} {a' : Analysis}
    (hp : Program.parse source = .ok p) (h : analyze p ⟨true, specialize⟩ = .ok a') :
    ∃ a, analyze p ⟨false, specialize⟩ = .ok a ∧ a' = a.strictly ∧ (a.body 0).strict = p.strict ∧
      (∀ f ∈ p.funcs, (a.body f.id).strict = f.strict) ∧
      ∀ id < a.bodies.size, id = 0 ∨ ∃ f ∈ p.funcs, f.id = id := by
  unfold analyze at h ⊢
  cases hstrict : Resolve.program true p with
  | error e =>
    rw [hstrict] at h
    cases h
  | ok r' =>
    rw [hstrict] at h
    obtain rfl := Except.ok.inj h
    have hn := Program.wellNumbered_of_parse hp
    obtain ⟨r, hr, rfl, hscript, hfuncs, hsize⟩ :=
      Resolve.program_strict hn (Program.inherit_of_parse hp) hstrict
    obtain ⟨origin, hscoped⟩ := Resolve.scoped_of_program hn hr
    have hsame := (Analysis.laidOut_withLayouts hscoped.sound).same
    have hbody (id : FunctionId) : (r.withLayouts.body id).strict = (r.body id).strict := by
      obtain ⟨_, _, hbody⟩ := hsame.body id
      rw [hbody]
    have hids (id : FunctionId) (hid : id < r.withLayouts.bodies.size) :
        id = 0 ∨ ∃ f ∈ p.funcs, f.id = id :=
      Resolve.exists_func hn (hsize ▸ hsame.bodies_size ▸ hid)
    refine ⟨_, by rw [hr]; rfl, ?_, ?_⟩
    · dsimp only
      rw [Analysis.withLayouts_strictly]
      split
      · exact r.withLayouts.withTypes_strictly p.body
      · rfl
    · dsimp only
      split
      · exact ⟨(hbody 0).trans hscript, fun f hf => (hbody f.id).trans (hfuncs f hf), hids⟩
      · exact ⟨(hbody 0).trans hscript, fun f hf => (hbody f.id).trans (hfuncs f hf), hids⟩

theorem Program.strict_restricts_directive : ∃ p a, Program.parse
      "var x = 1; function f(y) \x7b 'use strict'; return function () \x7b return x + y; \x7d; \x7d"
        = .ok p ∧
    analyze p ⟨false, true⟩ = .ok a ∧ analyze p ⟨true, true⟩ = .ok a.strictly ∧
    (a.body 0).strict = false ∧ p.funcs.length = 2 ∧
    ∀ f ∈ p.funcs, (a.body f.id).strict = true := by
  obtain ⟨p, a', hp, ha', hq⟩ := Program.exists_analyze
    "var x = 1; function f(y) \x7b 'use strict'; return function () \x7b return x + y; \x7d; \x7d"
      ⟨true, true⟩
    (fun p _ => !p.strict && p.funcs.length == 2 && p.funcs.all (·.strict)) (by decide +kernel)
  simp only [Bool.and_eq_true, Bool.not_eq_true', beq_iff_eq, List.all_eq_true] at hq
  obtain ⟨a, ha, rfl, hscript, hfuncs, -⟩ := Program.strict_restricts hp ha'
  exact ⟨p, a, hp, ha, ha', hscript.trans hq.1.1, hq.1.2,
    fun f hf => (hfuncs f hf).trans (hq.2 f hf)⟩

end ScriptEngine
