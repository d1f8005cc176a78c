import ScriptEngine.Proofs.Analysis.Strictness
import ScriptEngine.Proofs.Script.Use

/-!
# What is rejected

Resolution fails for what strict code does wrong and for nothing else: its error is the first
violation in the order in which it comes to them.  So the names that strict code may not bind or
write occur in accepted strict code as names of variables and of keys only, which are not checked.

## Main definitions

* `Resolve.report` : the failure with the first of some errors.
* `Resolve.Decides` : a computation that fails with the first violation of some syntax, if there is
  one.

## Main statements

* `Resolve.decides_expr`, `Resolve.decides_stmt` : resolution of a piece of syntax.
* `Program.restricted_names` : the errors of an analysis, and the names in accepted strict code.
* `Program.accepts_restricted_variable` : a script with such names that is accepted.
-/

namespace ScriptEngine

/-- The flags of other bodies than those of some functions are the same in both tables. -/
structure Analysis.Leaves (a b : Analysis) (fs : List Func) : Prop where
  size : b.bodies.size = a.bodies.size
  outside : ∀ id, (∀ f ∈ fs, f.id ≠ id) → (b.body id).strict = (a.body id).strict

namespace Analysis.Leaves

variable {a b c : Analysis} {fs fs' : List Func}

theorem of_flags {strict : Func → Bool} (h : a.Flags b fs strict) : a.Leaves b fs :=
  ⟨h.size, h.outside⟩

theorem trans (h : a.Leaves b fs) (h' : b.Leaves c fs') : a.Leaves c (fs ++ fs') where
  size := h'.size.trans h.size
  outside id hid := by
    simp only [List.mem_append, or_imp, forall_and] at hid
    exact (h'.outside id hid.2).trans (h.outside id hid.1)

theorem perm (h : a.Leaves b fs) (hfs : fs.Perm fs') : a.Leaves b fs' :=
  ⟨h.size, fun id hid => h.outside id fun f hf => hid f (hfs.mem_iff.mp hf)⟩

end Analysis.Leaves

namespace Resolve

variable {α β : Type}

/-! ### Computations that do not fail -/

/-- A computation always has a result. -/
def Total (x : Resolve α) : Prop :=
  ∀ s, ∃ r t, x.run s = .ok (r, t)

namespace Total

theorem pure (a : α) : Total (Pure.pure a) :=
  fun s => ⟨a, s, rfl⟩

theorem bind {x : Resolve α} {f : α → Resolve β} (hx : Total x) (hf : ∀ r, Total (f r)) :
    Total (x >>= f) := by
  intro s
  obtain ⟨r, t, hr⟩ := hx s
  rw [run_bind_of_ok hr]
  exact hf r t

theorem ite {c : Prop} [Decidable c] {x y : Resolve α} (hx : Total x) (hy : Total y) :
    Total (if c then x else y) := by
  split
  · exact hx
  · exact hy

theorem tables : Total tables :=
  fun s => ⟨s.analysis, s, rfl⟩

theorem modifyTables (f : Analysis → Analysis) : Total (modifyTables f) :=
  fun _ => ⟨(), _, rfl⟩

theorem freshNumber : Total freshNumber :=
  fun _ => ⟨_, _, rfl⟩

theorem addVariable (v : Variable) : Total (addVariable v) :=
  tables.bind fun _ => (modifyTables _).bind fun _ => .pure _

theorem declare (body : FunctionId) (name : String) (kind : VariableKind) :
    Total (declare body name kind) :=
  (addVariable _).bind fun _ => (modifyTables _).bind fun _ => .pure _

theorem declareOnce (body : FunctionId) (name : String) (kind : VariableKind) :
    Total (declareOnce body name kind) := by
  refine tables.bind fun a => ?_
  split
  · exact .pure _
  · exact declare body name kind

theorem capture (v : VariableId) : Total (capture v) :=
  tables.bind fun _ => .ite (modifyTables _) (.pure _)

theorem captureForeign (body : FunctionId) : ∀ ws : List VariableId, Total (captureForeign body ws)
  | [] => .pure _
  | w :: rest => tables.bind fun _ =>
    .ite ((capture w).bind fun _ => captureForeign body rest) (captureForeign body rest)

theorem lookedUp (name : String) : ∀ found : Option (VariableId × Bool), Total (lookedUp name found)
  | some (v, _) => .ite ((capture v).bind fun _ => .pure _) (.pure _)
  | none => declareOnce 0 name .global

theorem identifier (env : Environment) (i : Identifier) : Total (identifier env i) := by
  refine bind (tables.bind fun a => (lookedUp i.name _).bind fun target => ?_) fun _ =>
    modifyTables _
  exact .ite (.pure _) ((captureForeign _ _).bind fun _ => tables.bind fun _ => addVariable _)

theorem declareParameters (body : FunctionId) : ∀ (position : Nat) (ps : List Identifier),
    Total (declareParameters body position ps)
  | _, [] => .pure _
  | position, p :: rest =>
    (declareOnce body p.name .parameter).bind fun _ => (modifyTables _).bind fun _ =>
    (modifyTables _).bind fun _ => (modifyTables _).bind fun _ =>
      declareParameters body (position + 1) rest

theorem declareFunctions (body : FunctionId) (kind : VariableKind) : ∀ fs : List Func,
    Total (declareFunctions body kind fs)
  | [] => .pure _
  | f :: rest => by
    refine (declareOnce body f.name kind).bind fun v => ?_
    split
    · exact (modifyTables _).bind fun _ => (modifyTables _).bind fun _ =>
        declareFunctions body kind rest
    · exact declareFunctions body kind rest

theorem declareVariables (body : FunctionId) (kind : VariableKind) : ∀ names : List String,
    Total (declareVariables body kind names)
  | [] => .pure _
  | name :: rest => (declareOnce body name kind).bind fun _ => declareVariables body kind rest

theorem declareSelf (id : FunctionId) (name : Identifier) : Total (declareSelf id name) :=
  tables.bind fun _ =>
    .ite ((declare id name.name .local).bind fun _ => (modifyTables _).bind fun _ =>
    (modifyTables _).bind fun _ => modifyTables _) (.pure _)

theorem declareBody (f : Func) : Total (declareBody f) := by
  have hrest : Total (declareLocals f) := by
    unfold declareLocals
    refine (declareVariables f.id .local _).bind fun _ =>
      (declareFunctions f.id .local _).bind fun _ => ?_
    split
    · exact declareSelf f.id _
    · exact .pure _
  exact (declareParameters f.id 0 f.params).bind fun _ => tables.bind fun _ =>
    .ite ((declare f.id "arguments" .arguments).bind fun _ => (modifyTables _).bind fun _ =>
      hrest) hrest

theorem openBody (env : Environment) (strict : Bool) (f : Func) : Total (openBody env strict f) :=
  (modifyTables _).bind fun _ => (declareBody f).bind fun _ => .pure _

theorem addSynthetic (env : Environment) (v : Variable) : Total (addSynthetic env v) :=
  (addVariable v).bind fun _ => (modifyTables _).bind fun _ => .pure _

theorem enterWith (env : Environment) (node : NodeId) : Total (enterWith env node) :=
  freshNumber.bind fun _ => (addSynthetic env _).bind fun _ =>
    (modifyTables _).bind fun _ => .pure _

/-- What does not depend on strictness does not change it. -/
theorem leaves {R : α → α → Prop} {x : Resolve α} (hx : Total x) (hr : Restricts R x x)
    (a : Analysis) (n : Nat) :
    ∃ r t, x.run ⟨a, n⟩ = .ok (r, t) ∧ R r r ∧ a.Leaves t.analysis [] := by
  obtain ⟨r, ⟨b, k⟩, hrun⟩ := hx ⟨a, n⟩
  obtain ⟨r', b', hrun', hrel, -, -, hflags⟩ := hr (.refl a) hrun
  cases hrun.symm.trans hrun'
  exact ⟨r, ⟨b, k⟩, hrun, hrel, .of_flags hflags⟩

end Total

/-! ### Checks -/

/-- Fails with the first of some errors, if there are any. -/
def report : List StaticError → Resolve Unit
  | [] => pure ()
  | e :: _ => throw e

theorem report_append (es es' : List StaticError) :
    report (es ++ es') = report es >>= fun _ => report es' := by
  cases es <;> rfl

theorem checkName_eq (strict : Bool) (name : String) :
    checkName strict name = report (if strict then Use.restricted? name else none).toList := by
  unfold checkName Use.restricted?
  cases strict <;> cases isRestrictedName name <;> rfl

theorem violations_singleton (x : UseSite) : violations [x] = x.violation?.toList := by
  rw [violations_cons, violations_nil, List.append_nil]

theorem checkParameters_eq (seen : List String) (ps : List Identifier) :
    checkParameters seen ps = report (violations (parameterUses true seen ps)) := by
  induction ps generalizing seen with
  | nil => rfl
  | cons p rest ih =>
    rw [checkParameters, parameterUses, violations_cons, violations_append, report_append,
      report_append, checkName_eq, ← ih]
    refine congrArg (_ >>= ·) (funext fun _ => ?_)
    split <;> rfl

theorem violations_sloppy (ps : List Identifier) (seen : List String) :
    violations (parameterUses false seen ps) = [] := by
  induction ps generalizing seen with
  | nil => rfl
  | cons p rest ih =>
    rw [parameterUses, violations_cons, violations_append, ih]
    split <;> rfl

/-- The checks of a function are those of its name and its parameters. -/
theorem checks_eq (strict : Bool) (f : Func) :
    checks strict f =
      report (violations (nameUses strict f.identifier? ++ parameterUses strict [] f.params)) := by
  unfold checks
  rw [violations_append, report_append]
  cases strict with
  | false =>
    rw [violations_sloppy]
    cases f.identifier? <;> rfl
  | true =>
    rw [if_pos rfl, checkParameters_eq]
    cases f.identifier? with
    | none => rfl
    | some name =>
      rw [nameUses, violations_singleton]
      dsimp only
      rw [checkName_eq]
      rfl

/-! ### Syntax -/

/-- Room for functions in a body: they are all different, and have places in the tables. -/
structure Room (a : Analysis) (body : FunctionId) (fs : List Func) : Prop where
  nodup : (fs.map Func.id).Nodup
  apart : ∀ f ∈ fs, f.id ≠ body
  bound : ∀ f ∈ fs, f.id < a.bodies.size

/-- Some syntax in a body, with its functions and the places that strictness restricts: its
resolution fails with the first violation, and without any it changes no flags but those of the
functions. -/
def Decides (body : FunctionId) (fs : List Func) (xs : Bool → List UseSite)
    (x : Resolve Unit) : Prop :=
  ∀ ⦃a : Analysis⦄ ⦃n : Nat⦄, Room a body fs →
    (∃ e, (violations (xs (a.body body).strict)).head? = some e ∧ x.run ⟨a, n⟩ = .error e) ∨
    violations (xs (a.body body).strict) = [] ∧
      ∃ t, x.run ⟨a, n⟩ = .ok ((), t) ∧ a.Leaves t.analysis fs

theorem run_bind_of_error {x : Resolve α} {f : α → Resolve β} {s : Resolving} {e : StaticError}
    (h : x.run s = .error e) : (x >>= f).run s = .error e := by
  rw [StateT.run_bind, h]
  rfl

namespace Decides

variable {body : FunctionId} {fs fs' : List Func} {xs ys : Bool → List UseSite} {x y : Resolve Unit}

theorem of_total (hx : Total x) (hr : Restricts Eq x x) : Decides body [] (fun _ => []) x := by
  intro a n _
  obtain ⟨r, t, hrun, -, hleaves⟩ := hx.leaves hr a n
  exact .inr ⟨rfl, t, hrun, hleaves⟩

theorem pure : Decides body [] (fun _ => []) (Pure.pure ()) :=
  of_total (.pure _) (.pure rfl)

/-- Two pieces of syntax one after the other. -/
theorem bind (hx : Decides body fs xs x) (hy : Decides body fs' ys y) :
    Decides body (fs ++ fs') (fun strict => xs strict ++ ys strict) (x >>= fun _ => y) := by
  intro a n hroom
  have hnodup := hroom.nodup
  have happart := hroom.apart
  have hbound := hroom.bound
  simp only [List.map_append, List.nodup_append, List.mem_append, or_imp, forall_and]
    at hnodup happart hbound
  dsimp only
  rw [violations_append]
  rcases @hx a n ⟨hnodup.1, happart.1, hbound.1⟩ with ⟨e, he, hrun⟩ | ⟨hnone, t, hrun, hleaves⟩
  · refine .inl ⟨e, ?_, run_bind_of_error hrun⟩
    rw [List.head?_append, he]
    rfl
  · obtain ⟨b, k⟩ := t
    have hflag := hleaves.outside body happart.1
    rw [hnone, List.nil_append, run_bind_of_ok hrun, ← hflag]
    rcases @hy b k ⟨hnodup.2.1, happart.2, fun f hf => hleaves.size ▸ hbound.2 f hf⟩ with
      hfails | ⟨hnone', t, hrun', hleaves'⟩
    · exact .inl hfails
    · exact .inr ⟨hnone', t, hrun', hleaves.trans hleaves'⟩

/-- A check of the code around. -/
theorem check {env : Environment} (henv : current env = body) {c : Bool → Resolve Unit}
    (hc : ∀ strict, c strict = report (violations (xs strict))) :
    Decides body [] xs (isStrict env >>= c) := by
  intro a n _
  have hread : (isStrict env >>= c).run ⟨a, n⟩ = (report (violations (xs (a.body body).strict))).run
      ⟨a, n⟩ := by
    rw [run_bind_of_ok (r := (a.body (current env)).strict) (t := ⟨a, n⟩) rfl, hc, henv]
  rw [hread]
  cases hxs : violations (xs (a.body body).strict) with
  | nil => exact .inr ⟨rfl, ⟨a, n⟩, rfl, ⟨rfl, fun _ _ => rfl⟩⟩
  | cons e rest => exact .inl ⟨e, rfl, rfl⟩

/-- What strict code may not do at all. -/
theorem rejected {env : Environment} (henv : current env = body) {u : Use} {e : StaticError}
    (hu : u.violation? = some e) (hx : Decides body fs xs x) :
    Decides body fs (fun strict => [⟨strict, u⟩] ++ xs strict)
      (isStrict env >>= fun strict => if strict then MonadExcept.throw e >>= fun _ : Unit => x
        else x) := by
  have hcheck (strict : Bool) : violations [⟨strict, u⟩] = if strict then [e] else [] := by
    rw [violations_singleton, UseSite.violation?]
    cases strict
    · rfl
    · exact congrArg Option.toList hu
  have hsteps : (isStrict env >>= fun strict => if strict then
      MonadExcept.throw e >>= fun _ : Unit => x else x) =
      (isStrict env >>= fun strict => report (violations [⟨strict, u⟩])) >>= fun _ => x := by
    rw [bind_assoc]
    refine congrArg (isStrict env >>= ·) (funext fun strict => ?_)
    rw [hcheck]
    cases strict <;> rfl
  rw [hsteps]
  exact (check henv fun _ => rfl).bind hx

/-- A scope inside of the same body. -/
theorem scope {env : Environment} (henv : current env = body) {c : Resolve Environment}
    (ht : Total c)
    (hc : Restricts (fun inner inner' => inner' = inner ∧ current inner = current env) c c)
    {g : Environment → Resolve Unit} (hg : ∀ inner, Decides (current inner) fs xs (g inner)) :
    Decides body fs xs (c >>= g) := by
  intro a n hroom
  obtain ⟨inner, ⟨b, k⟩, hrun, ⟨-, hinner⟩, hleaves⟩ := ht.leaves hc a n
  obtain rfl : current inner = body := hinner.trans henv
  have hflag := hleaves.outside (current inner) nofun
  rw [run_bind_of_ok hrun, ← hflag]
  rcases @hg inner b k ⟨hroom.nodup, hroom.apart, fun f hf => hleaves.size ▸ hroom.bound f hf⟩ with
    hfails | ⟨hnone, t, hrun', hleaves'⟩
  · exact .inl hfails
  · exact .inr ⟨hnone, t, hrun', hleaves.trans hleaves'⟩

/-- A function, of which the statements follow.  They stand in code that is strict if the function
or the code around it is. -/
theorem function {env : Environment} (henv : current env = body) {f : Func}
    {k : Environment → Resolve Unit} (hk : Decides f.id f.inside xs (k (⟨f.id, []⟩ :: env))) :
    Decides body (f :: f.inside) (fun strict =>
      (nameUses (f.strict || strict) f.identifier? ++
        parameterUses (f.strict || strict) [] f.params) ++
        xs (f.strict || strict)) (enter env f >>= k) := by
  intro a n hroom
  subst henv
  have hnodup := List.nodup_cons.mp hroom.nodup
  have hbound := List.forall_mem_cons.mp hroom.bound
  have hdistinct : ∀ g ∈ f.inside, g.id ≠ f.id :=
    fun g hg h => hnodup.1 (h ▸ List.mem_map_of_mem hg)
  dsimp only
  rw [enter_eq]
  simp only [bind_assoc]
  rw [run_bind_of_ok (t := ⟨a, n⟩) (r := (a.body (current env)).strict) rfl]
  generalize (f.strict || (a.body (current env)).strict) = strict
  rw [checks_eq, violations_append]
  cases hchecks :
    violations (nameUses strict f.identifier? ++ parameterUses strict [] f.params) with
  | cons e rest => exact .inl ⟨e, rfl, rfl⟩
  | nil =>
    obtain ⟨inner, ⟨b, m⟩, hopen⟩ := Total.openBody env strict f ⟨a, n⟩
    obtain ⟨rfl, -, -, -, -, hset⟩ :=
      @openBody_run _ _ (.refl a) _ _ _ (fun _ => strict) (fun _ => strict) (fun h => h)
        hbound.1 _ _ hopen
    rw [List.nil_append, report, pure_bind,
      run_bind_of_ok hopen, ← hset.inside f (List.mem_singleton_self f)]
    rcases @hk b m ⟨hnodup.2, hdistinct, fun g hg => hset.size ▸ hbound.2 g hg⟩ with
      hfails | ⟨hnone, t, hrun, hleaves⟩
    · exact .inl hfails
    · exact .inr ⟨hnone, t, hrun, (Analysis.Leaves.of_flags hset).trans hleaves⟩

theorem perm (h : Decides body fs xs x) (hfs : fs.Perm fs') : Decides body fs' xs x := by
  intro a n hroom
  rcases @h a n ⟨(hfs.map Func.id).nodup_iff.mpr hroom.nodup,
      fun f hf => hroom.apart f (hfs.mem_iff.mp hf),
    fun f hf => hroom.bound f (hfs.mem_iff.mp hf)⟩ with hfails | ⟨hnone, t, hrun, hleaves⟩
  · exact .inl hfails
  · exact .inr ⟨hnone, t, hrun, hleaves.perm hfs⟩

theorem then_pure (h : Decides body fs xs x) :
    Decides body fs xs (x >>= fun _ => Pure.pure ()) := by
  have hx : (x >>= fun _ => Pure.pure ()) = x := bind_pure_unit
  rwa [hx]

/-- A name is resolved. -/
theorem identifier (env : Environment) (i : Identifier) :
    Decides body [] (fun _ => []) (identifier env i) :=
  of_total (.identifier env i) (.identifier env i)

/-- A name to which no rule applies. -/
theorem unchecked {u : Use} (hu : u.violation? = none) (hx : Decides body fs xs x) :
    Decides body fs (fun strict => ⟨strict, u⟩ :: xs strict) x := by
  intro a n hroom
  have hskip (strict : Bool) : violations (⟨strict, u⟩ :: xs strict) = violations (xs strict) := by
    refine List.filterMap_cons_none ?_
    rw [UseSite.violation?]
    split
    · exact hu
    · rfl
  dsimp only
  rw [hskip]
  exact hx hroom

end Decides

theorem decides_checkTarget (env : Environment) (t : Target) :
    Decides (current env) [] (fun strict => t.written strict) (checkTarget env t) := by
  cases t with
  | identifier i =>
    refine .check rfl fun strict => ?_
    rw [checkName_eq, Target.written, violations_singleton]
    rfl
  | member m => exact .pure

/-- The scope of a `catch` clause whose parameter was checked. -/
def openCatch (env : Environment) (param : Identifier) : Resolve Environment := do
  let n ← freshNumber
  let v ← addSynthetic env
    { Variable.plain param.name .local (current env) with storageName := s!"%catch{n}" }
  setReference param.id v
  return openScope (.catch_ param.name v) env

theorem enterCatch_eq (env : Environment) (param : Identifier) : enterCatch env param = (do
    let strict ← isStrict env
    checkName strict param.name
    openCatch env param) :=
  rfl

theorem total_openCatch (env : Environment) (param : Identifier) : Total (openCatch env param) :=
  .bind .freshNumber fun _ => (Total.addSynthetic env _).bind fun _ =>
    (Total.modifyTables _).bind fun _ => .pure _

theorem restricts_openCatch (env : Environment) (param : Identifier) :
    Restricts (fun inner inner' => inner' = inner ∧ current inner = current env)
      (openCatch env param) (openCatch env param) :=
  Restricts.freshNumber.andThen fun _ => (Restricts.addSynthetic env _).andThen fun _ =>
    (Restricts.setReference param.id _).andThen fun _ => .pure ⟨rfl, current_openScope env _⟩

mutual

/-- An expression is rejected for its first violation only. -/
theorem decides_expr (env : Environment) : ∀ e : Expr,
    Decides (current env) e.funcs (fun strict => e.uses strict) (expr env e)
  | .literal .. => .pure
  | .this _ => .pure
  | .identifier i => .identifier env i
  | .array _ elements => decides_elementList env elements
  | .object _ properties => decides_propertyList env properties
  | .function f => decides_func env f
  | .unary _ op argument => by
    unfold expr
    split
    · next i => exact Decides.rejected (u := .deleted i.name) rfl rfl (.identifier env i)
    · have hnone (strict : Bool) : deletions strict op argument = [] := by
        unfold deletions
        split
        · next i h => exact (h i rfl rfl).elim
        · rfl
      simp only [Expr.funcs, Expr.uses, hnone, List.nil_append]
      exact decides_expr env argument
  | .update _ _ t _ => (decides_checkTarget env t).bind (decides_target env t)
  | .binary _ _ left right => (decides_expr env left).bind (decides_expr env right)
  | .logical _ _ left right => (decides_expr env left).bind (decides_expr env right)
  | .assign _ _ t value =>
    (decides_checkTarget env t).bind ((decides_target env t).bind (decides_expr env value))
  | .conditional _ test consequent alternate =>
    (decides_expr env test).bind ((decides_expr env consequent).bind (decides_expr env alternate))
  | .call _ callee arguments => (decides_expr env callee).bind (decides_exprList env arguments)
  | .construct _ callee arguments => (decides_expr env callee).bind (decides_exprList env arguments)
  | .sequence _ expressions => decides_exprList env expressions
  | .member m => decides_member env m

theorem decides_exprList (env : Environment) : ∀ es : List Expr,
    Decides (current env) (exprFuncs es) (fun strict => exprUses strict es) (exprList env es)
  | [] => .pure
  | e :: rest => (decides_expr env e).bind (decides_exprList env rest)

theorem decides_elementList (env : Environment) : ∀ es : List (Option Expr),
    Decides (current env) (elementFuncs es) (fun strict => elementUses strict es)
      (elementList env es)
  | [] => .pure
  | none :: rest => decides_elementList env rest
  | some e :: rest => (decides_expr env e).bind (decides_elementList env rest)

theorem decides_propertyList (env : Environment) : ∀ ps : List Property,
    Decides (current env) (propertyFuncs ps) (fun strict => propertyUses strict ps)
      (propertyList env ps)
  | [] => .pure
  | .mk _ _ value :: rest => (decides_expr env value).bind (decides_propertyList env rest)

theorem decides_member (env : Environment) : ∀ m : Member,
    Decides (current env) m.funcs (fun strict => m.uses strict) (member env m)
  | .named _ object _ => decides_expr env object
  | .computed _ object property => (decides_expr env object).bind (decides_expr env property)

theorem decides_target (env : Environment) : ∀ t : Target,
    Decides (current env) t.funcs (fun strict => t.uses strict) (target env t)
  | .identifier i => .identifier env i
  | .member m => decides_member env m

theorem decides_func (env : Environment) : ∀ f : Func,
    Decides (current env) (f :: f.inside) (fun strict => f.uses strict) (func env f)
  | .mk span id name params strict isExpression bodySpan body =>
    @Decides.function _ (fun strict => stmtUses strict body) _ rfl
      (.mk span id name params strict isExpression bodySpan body) (fun inner => stmtList inner body)
      (decides_stmtList (⟨id, []⟩ :: env) body)

theorem decides_stmtList (env : Environment) : ∀ ss : List Stmt,
    Decides (current env) (stmtFuncs ss) (fun strict => stmtUses strict ss) (stmtList env ss)
  | [] => .pure
  | s :: rest => (decides_stmt env s).bind (decides_stmtList env rest)

theorem decides_option (env : Environment) : ∀ e : Option Expr,
    Decides (current env) (optionFuncs e) (fun strict => optionUses strict e) (option env e)
  | none => .pure
  | some e => decides_expr env e

theorem decides_forInit (env : Environment) : ∀ init : ForInit,
    Decides (current env) init.funcs (fun strict => init.uses strict) (forInit env init)
  | .nothing => .pure
  | .declaration _ ds => decides_declaratorList env ds
  | .expression e => decides_expr env e

theorem decides_forInTarget (env : Environment) : ∀ left : ForInTarget,
    Decides (current env) left.funcs (fun strict => left.uses strict) (forInTarget env left)
  | .declaration i => .unchecked rfl (.identifier env i)
  | .target (.identifier i) => .unchecked rfl (.identifier env i)
  | .target (.member m) => decides_member env m

theorem decides_declaratorList (env : Environment) : ∀ ds : List Declarator,
    Decides (current env) (declaratorFuncs ds) (fun strict => declaratorUses strict ds)
      (declaratorList env ds)
  | [] => .pure
  | .mk _ name none :: rest =>
    .unchecked rfl ((Decides.identifier env name).bind (decides_declaratorList env rest))
  | .mk _ name (some init) :: rest => .unchecked rfl ((Decides.identifier env name).bind
    ((decides_expr env init).bind (decides_declaratorList env rest)))

theorem decides_clauseList (env : Environment) : ∀ cs : List SwitchClause,
    Decides (current env) (clauseFuncs cs) (fun strict => clauseUses strict cs) (clauseList env cs)
  | [] => .pure
  | .mk _ none body :: rest => (decides_stmtList env body).bind (decides_clauseList env rest)
  | .mk _ (some test) body :: rest =>
    (decides_expr env test).bind ((decides_stmtList env body).bind (decides_clauseList env rest))

theorem decides_block (env : Environment) : ∀ b : Block,
    Decides (current env) b.funcs (fun strict => b.uses strict) (block env b)
  | .mk _ body => decides_stmtList env body

theorem decides_handler (env : Environment) : ∀ h : Handler,
    Decides (current env) h.funcs (fun strict => h.uses strict) (handler env h)
  | .mk _ param body => by
    have hcheck : Decides (current env) [] (fun strict => [⟨strict, .catchParameter param.name⟩])
        (isStrict env >>= fun strict => checkName strict param.name) := by
      refine .check rfl fun strict => ?_
      rw [checkName_eq, violations_singleton]
      rfl
    have hbody : Decides (current env) body.funcs (fun strict => body.uses strict)
        (openCatch env param >>= fun inner => block inner body) :=
      .scope rfl (total_openCatch env param) (restricts_openCatch env param) fun inner =>
        decides_block inner body
    have h := hcheck.bind hbody
    unfold handler
    rw [enterCatch_eq]
    simp only [bind_assoc] at h ⊢
    exact h

/-- A statement is rejected for its first violation only. -/
theorem decides_stmt (env : Environment) : ∀ s : Stmt,
    Decides (current env) s.funcs (fun strict => s.uses strict) (stmt env s)
  | .expression _ e => decides_expr env e
  | .block b => decides_block env b
  | .empty _ | .debugger _ | .brk .. | .cont .. | .ret _ none => .pure
  | .ret _ (some e) => decides_expr env e
  | .labeled _ _ body => decides_stmt env body
  | .conditional _ test consequent none =>
    (decides_expr env test).bind (decides_stmt env consequent)
  | .conditional _ test consequent (some alternate) =>
    (decides_expr env test).bind ((decides_stmt env consequent).bind (decides_stmt env alternate))
  | .switch _ discriminant clauses =>
    (decides_expr env discriminant).bind (decides_clauseList env clauses)
  | .throw _ e => decides_expr env e
  | .tryCatch _ b none none => (decides_block env b).then_pure
  | .tryCatch _ b none (some f) => (decides_block env b).bind (decides_block env f)
  | .tryCatch _ b (some h) none => (decides_block env b).bind (decides_handler env h).then_pure
  | .tryCatch _ b (some h) (some f) =>
    (decides_block env b).bind ((decides_handler env h).bind (decides_block env f))
  | .while _ test body => (decides_expr env test).bind (decides_stmt env body)
  | .doWhile _ test body =>
    ((decides_expr env test).bind (decides_stmt env body)).perm List.perm_append_comm
  | .for _ init test update body => by
    rw [stmt_for]
    exact (decides_forInit env init).bind ((decides_option env test).bind
      ((decides_option env update).bind (decides_stmt env body)))
  | .forIn _ left right body => by
    rw [stmt_forIn]
    exact (decides_forInTarget env left).bind
      ((decides_expr env right).bind (decides_stmt env body))
  | .with _ id object body => by
    rw [stmt_with]
    refine Decides.rejected (u := .withObject) rfl rfl ((decides_expr env object).bind ?_)
    exact .scope rfl (.enterWith env id) (.enterWith env id) fun inner => decides_stmt inner body
  | .declaration _ ds => decides_declaratorList env ds
  | .function f => by
    have h := decides_func (hoistedEnvironment env) f
    rwa [current_hoistedEnvironment] at h

end

/-! ### Scripts -/

/-- A script is rejected for the first violation in it, and for nothing else. -/
theorem program_decides {p : Program} (hn : p.WellNumbered) (hi : Func.Inherit p.strict p.funcs)
    (strict : Bool) :
    (∃ e, (p.violations strict).head? = some e ∧ program strict p = .error e) ∨
      p.violations strict = [] ∧ ∃ a, program strict p = .ok a := by
  have hfit := fit_of_wellNumbered hn hi (size_start false hn) (by simp [strict_start false p])
  have hroom : Room (start strict p) 0 p.funcs :=
    ⟨hfit.nodup, hfit.apart, fun f hf => (size_start strict hn).symm ▸ size_start false hn ▸
      hfit.bound f hf⟩
  have hcontents : Decides 0 p.funcs (fun strict => stmtUses strict p.body) (contents p) :=
    (Decides.of_total (.declareVariables 0 .global _) (.declareVariables 0 .global _)).bind
      ((Decides.of_total (.declareFunctions 0 .global _) (.declareFunctions 0 .global _)).bind
        (decides_stmtList [⟨0, []⟩] p.body))
  have hrun : (script strict p).run ⟨.initial p.functionCount p.nodeCount, 0⟩ =
      (contents p).run ⟨start strict p, 0⟩ := rfl
  have hdecided := @hcontents (start strict p) 0 hroom
  rw [strict_start] at hdecided
  simp only [program, hrun]
  rcases hdecided with ⟨e, he, hfails⟩ | ⟨hnone, t, hends, -⟩
  · rw [hfails]
    exact .inl ⟨e, he, rfl⟩
  · rw [hends]
    exact .inr ⟨hnone, t.analysis, rfl⟩

end Resolve

/-- A name that is bound or written, and reported, is restricted and not one that no rule is
about. -/
theorem Use.violation?_of_bound {u : Use} {name : String} (hname : u.bound? = some name)
    (hrestricted : isRestrictedName name = true) (hu : ¬ u.IsUnchecked) :
    ∃ e, u.violation? = some e := by
  cases u with
  | functionName | parameter | catchParameter | written =>
    obtain rfl := Option.some.inj hname
    exact ⟨_, if_pos hrestricted⟩
  | repeated => exact ⟨_, rfl⟩
  | declared | key => exact (hu trivial).elim
  | deleted | withObject => cases hname

/-- The analysis of a script fails with the first violation in it, and only if there is one.  What
it accepts has the names `eval` and `arguments` in strict code for no function, parameter, `catch`
clause or target of an assignment or update: if they are bound or written there, then by a `var`
declaration or as the keys of a `for`-`in` loop. -/
theorem Program.restricted_names {source : String} {p : Program} (hp : Program.parse source = .ok p)
    (options : CompileOptions) :
    (∀ e, analyze p options = .error e ↔ (p.violations options.strict).head? = some e) ∧
    ∀ a, analyze p options = .ok a → ∀ x ∈ p.uses options.strict, x.strict = true →
      ∀ name, x.use.bound? = some name → isRestrictedName name = true → x.use.IsUnchecked := by
  rcases Resolve.program_decides (wellNumbered_of_parse hp) (inherit_of_parse hp)
      options.strict with
    ⟨e, he, hfails⟩ | ⟨hnone, a, hends⟩
  · refine ⟨fun e' => ?_, fun a ha => ?_⟩
    · rw [analyze, hfails, he]
      exact ⟨fun h => by cases h; rfl, fun h => by cases h; rfl⟩
    · rw [analyze, hfails] at ha
      cases ha
  · refine ⟨fun e' => ?_, fun _ _ x hx hstrict name hname hrestricted => ?_⟩
    · rw [analyze, hends, hnone]
      exact ⟨nofun, nofun⟩
    · by_contra hu
      obtain ⟨e, he⟩ := Use.violation?_of_bound hname hrestricted hu
      have hviolation : x.violation? = some e := by rw [UseSite.violation?, if_pos hstrict, he]
      have hmem : e ∈ p.violations options.strict := List.mem_filterMap.mpr ⟨x, hx, hviolation⟩
      rw [hnone] at hmem
      cases hmem

/-- An assignment to `arguments` in a function that is strict. -/
theorem Program.restricted_names_assignment : ∃ p, Program.parse
      "var eval; function f() \x7b 'use strict'; return function () \x7b arguments = 1; \x7d; \x7d"
        = .ok p ∧
    (∀ e, analyze p ⟨false, true⟩ = .error e ↔ (p.violations false).head? = some e) ∧
    analyze p ⟨false, true⟩ = .error (.restrictedName "arguments") := by
  obtain ⟨p, hp, hviolation⟩ := Program.exists_parse
    "var eval; function f() \x7b 'use strict'; return function () \x7b arguments = 1; \x7d; \x7d"
    (fun p => (p.violations false).head? = some (.restrictedName "arguments")) (by decide +kernel)
  have herrors := (restricted_names hp ⟨false, true⟩).1
  exact ⟨p, hp, herrors, (herrors _).mpr (of_decide_eq_true hviolation)⟩

/-- Strict code that declares `eval` and assigns the keys of an object to `arguments` is
accepted. -/
theorem Program.accepts_restricted_variable : ∃ p a,
    Program.parse "'use strict'; var eval = 1; for (arguments in \x7b\x7d) ;" = .ok p ∧
    analyze p ⟨false, true⟩ = .ok a ∧
    p.uses false = [⟨true, .declared "eval"⟩, ⟨true, .key "arguments"⟩] := by
  obtain ⟨p, a, hp, ha, huses⟩ := Program.exists_analyze
    "'use strict'; var eval = 1; for (arguments in \x7b\x7d) ;" ⟨false, true⟩
    (fun p _ => p.uses false = [⟨true, .declared "eval"⟩, ⟨true, .key "arguments"⟩])
      (by decide +kernel)
  exact ⟨p, a, hp, ha, of_decide_eq_true huses⟩

end ScriptEngine
