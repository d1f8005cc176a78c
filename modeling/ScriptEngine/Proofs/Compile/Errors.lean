import ScriptEngine.Proofs.Compile.Lookup
import ScriptEngine.Proofs.Compile.Targets

/-!
# Errors of compilation

Compilation of a script whose names are resolved finds a place for every variable that it looks up.
What can still be wrong is where jumps lead.  So it fails just if a statement of the script or of
one of its functions is illegal where it stands.

## Main definitions

* `StaticError.IsJump` : errors about jumps and labels.
* `Analysis.Serves` : what occurrences stand for can be accessed from the bodies around them.
* `Compile.Decides` : a computation that fails just if one of some statements is illegal.

## Main statements

* `Compile.decides_expr`, `Compile.decides_stmt`, `Compile.decides_hoist` : compilation decides
  whether the statements are legal.
* `Program.lookups_succeed` : all variables have places, and captured ones are found in records.
* `Program.compile_fails_iff_illegal` : the scripts that compilation rejects.
-/

namespace ScriptEngine

/-- An error about the target of a jump or about a label. -/
def StaticError.IsJump : StaticError → Prop
  | .illegalReturn | .illegalBreak | .illegalContinue
  | .undefinedLabel _ | .duplicateLabel _ => True
  | _ => False

namespace Jumps

theorem isJump_of_labeled {j : Jumps} {label : String} {e : StaticError}
    (h : j.labeled label = .error e) : e.IsJump := by
  unfold labeled at h
  split at h <;> cases h
  trivial

theorem isJump_of_innermost {j : Jumps} {p : TargetKind → Bool} {e e' : StaticError} (he : e.IsJump)
    (h : j.innermost p e = .error e') : e'.IsJump := by
  unfold innermost at h
  split at h <;> cases h
  exact he

theorem isJump_of_breakTarget {j : Jumps} {label : Option String} {e : StaticError}
    (h : j.breakTarget label = .error e) : e.IsJump := by
  cases label with
  | some label =>
    cases ht : j.labeled label with
    | error e' =>
      simp only [breakTarget, ht] at h
      cases h
      exact isJump_of_labeled ht
    | ok t => simp [breakTarget, ht] at h
  | none =>
    cases ht : j.innermost (· != .labeled) .illegalBreak with
    | error e' =>
      simp only [breakTarget, ht] at h
      cases h
      exact isJump_of_innermost (e := .illegalBreak) trivial ht
    | ok t => simp [breakTarget, ht] at h

theorem isJump_of_continueTarget {j : Jumps} {label : Option String} {e : StaticError}
    (h : j.continueTarget label = .error e) : e.IsJump := by
  have hloop {t : JumpTarget} (h : (if t.kind = .loop then pure t.id else throw .illegalContinue :
      Except StaticError TargetId) = .error e) : e.IsJump := by
    split at h <;> cases h
    trivial
  cases label with
  | some label =>
    cases ht : j.labeled label with
    | error e' =>
      simp only [continueTarget, ht] at h
      cases h
      exact isJump_of_labeled ht
    | ok t =>
      simp only [continueTarget, ht] at h
      exact hloop h
  | none =>
    cases ht : j.innermost (· == .loop) .illegalContinue with
    | error e' =>
      simp only [continueTarget, ht] at h
      cases h
      exact isJump_of_innermost (e := .illegalContinue) trivial ht
    | ok t =>
      simp only [continueTarget, ht] at h
      exact hloop h

end Jumps

/-- What occurrences stand for can be accessed from the bodies around them. -/
def Analysis.Serves (a : Analysis) (us : List Occurrence) : Prop :=
  ∀ o ∈ us, ∃ v, o.mention.denoted? a = some v ∧
    ∀ isProgram, (Compile.access (.ofBody a (Scope.owner o.scopes) isProgram) v).Total

/-- What stands for the name of a function expression can be accessed from its body. -/
def Analysis.ServesSelf (a : Analysis) : Prop :=
  ∀ id v, (a.body id).selfBinding = some v → (Compile.access (.ofBody a id false) v).Total

section

variable {a : Analysis} {u : Occurrence} {us us' : List Occurrence}

theorem Analysis.serves_append : a.Serves (us ++ us') ↔ a.Serves us ∧ a.Serves us' :=
  List.forall_mem_append

theorem Analysis.serves_cons : a.Serves (u :: us) ↔ (∃ v, u.mention.denoted? a = some v ∧
    ∀ isProgram, (Compile.access (.ofBody a (Scope.owner u.scopes) isProgram) v).Total) ∧
      a.Serves us :=
  List.forall_mem_cons

end

namespace Compile

variable {a : Analysis} {isProgram : Bool}

/-- A computation fails just if one of some statements is illegal, and then because of a jump. -/
def Decides {α : Type} (sites : List Site) (x : Compile α) : Prop :=
  ∀ s, (AllLegal sites → ∃ r, x s = .ok r) ∧ (¬ AllLegal sites → ∃ e, x s = .error e ∧ e.IsJump)

namespace Decides

variable {α β : Type} {sites sites' : List Site} {x : Compile α}

theorem congr (h : x.Decides sites) (hs : AllLegal sites ↔ AllLegal sites') : x.Decides sites' := by
  intro s
  rw [← hs]
  exact h s

theorem of_total (h : x.Total) : x.Decides [] :=
  fun s => ⟨fun _ => h.exists_ok s, fun hnot => absurd allLegal_nil hnot⟩

theorem pure (a : α) : Decides [] (pure a : Compile α) :=
  .of_total (.pure a)

theorem throw {e : StaticError} (h : ¬ AllLegal sites) (he : e.IsJump) :
    Decides sites (throw e : Compile α) :=
  fun _ => ⟨fun hall => absurd hall h, fun _ => ⟨e, rfl, he⟩⟩

theorem bind {f : α → Compile β} (hx : x.Decides sites) (hf : ∀ a, (f a).Decides sites') :
    (x >>= f).Decides (sites ++ sites') := by
  intro s
  change (_ → ∃ r, (x s).bind (fun r => f r.1 r.2) = .ok r) ∧
    (_ → ∃ e, (x s).bind (fun r => f r.1 r.2) = .error e ∧ e.IsJump)
  rw [allLegal_append]
  by_cases hsites : AllLegal sites
  · obtain ⟨r, hr⟩ := (hx s).1 hsites
    simp only [hr, hsites, true_and]
    exact hf r.1 r.2
  · obtain ⟨e, he, hjump⟩ := (hx s).2 hsites
    rw [he]
    exact ⟨fun h => absurd h.1 hsites, fun _ => ⟨e, rfl, hjump⟩⟩

/-- What cannot fail may follow. -/
theorem then_of_total {f : α → Compile β} (hx : x.Decides sites) (hf : ∀ a, (f a).Decides []) :
    (x >>= f).Decides sites :=
  (hx.bind hf).congr (by simp)

theorem map (h : x.Decides sites) (f : α → β) : (x >>= fun a => Pure.pure (f a)).Decides sites :=
  h.then_of_total fun a => .pure (f a)

theorem lift {x : Except StaticError α} (hok : AllLegal sites → ∃ a, x = .ok a)
    (herror : ¬ AllLegal sites → ∃ e, x = .error e ∧ e.IsJump) :
    Decides sites (liftM x : Compile α) := by
  refine fun s => ⟨fun h => ?_, fun h => ?_⟩
  · obtain ⟨a, rfl⟩ := hok h
    exact ⟨(a, s), rfl⟩
  · obtain ⟨e, rfl, he⟩ := herror h
    exact ⟨e, rfl, he⟩

/-- A statement that is never illegal adds nothing. -/
theorem cons {y : Site} (hy : ¬ y.IsIllegal) (h : x.Decides sites) : x.Decides (y :: sites) :=
  h.congr (by simp [hy])

end Decides

theorem decides_identifier {m : Mention} {i : Identifier} {scopes : List Scope}
    {us : List Occurrence} (hm : m.denoted? a = a.reference? i) (h : a.Serves (⟨m, scopes⟩ :: us)) :
    (identifier (.ofBody a (Scope.owner scopes) isProgram) i).Decides [] := by
  obtain ⟨⟨v, hv, haccess⟩, -⟩ := Analysis.serves_cons.mp h
  have href : (BodyContext.ofBody a (Scope.owner scopes) isProgram).analysis.reference?
      i = some v :=
    hm.symm.trans hv
  unfold identifier
  rw [href]
  exact .of_total (haccess isProgram)

theorem decides_jump {target : Except StaticError TargetId} {y : Site}
    (h : ∀ e, target = .error e → e.IsJump) (hy : (∃ t, target = .ok t) ↔ ¬ y.IsIllegal) :
    (jump target).Decides [y] := by
  unfold jump
  split
  · exact .cons (hy.mp ⟨_, rfl⟩) (.pure _)
  · rename_i e
    refine .throw (fun hall => ?_) (h e rfl)
    obtain ⟨t, ht⟩ := hy.mpr (allLegal_cons.mp hall).1
    cases ht

theorem except_bind_eq_error {ε α β : Type} {x : Except ε α} {f : α → Except ε β} {e : ε}
    (h : (x >>= f) = .error e) : x = .error e ∨ ∃ a, x = .ok a ∧ f a = .error e := by
  cases x with
  | ok a => exact .inr ⟨a, rfl, h⟩
  | error e' =>
    cases h
    exact .inl rfl

theorem decides_newSlot (ρ : Rep) : (newSlot ρ).Decides [] :=
  .of_total nofun

theorem decides_selfEntry (hself : a.ServesSelf) (id : FunctionId) :
    (selfEntry (.ofBody a id false)).Decides [] := by
  unfold selfEntry
  split
  · rename_i v hv
    exact (Decides.of_total (hself id v hv)).map _
  · exact .pure _

/-! ### Kinds of expressions and statements -/

section Kinds

variable {scopes : List Scope} {span : Span}

/-- An operator looks at a name or a property instead of its value in two cases. -/
theorem decides_unary {op : UnaryOp} {argument : Expr} (h : a.Serves (argument.occurrences scopes))
    (hargument : (expr (.ofBody a (Scope.owner scopes) isProgram) argument).Decides argument.sites)
    (hmember : match argument with
      | .member m => (member (.ofBody a (Scope.owner scopes) isProgram) m).Decides m.sites
      | _ => True) :
    (expr (.ofBody a (Scope.owner scopes) isProgram) (.unary span op argument)).Decides
      (Expr.unary span op argument).sites := by
  have hplain := hargument.map (specializeUnary op)
  cases op with
  | delete =>
    cases argument with
    | identifier i =>
      rw [expr]
      simp only [Expr.occurrences] at h
      exact (decides_identifier rfl h).map _
    | member m =>
      rw [expr]
      exact Decides.map hmember _
    | _ => simpa only [expr, Expr.sites] using hplain
  | typeOf =>
    cases argument with
    | identifier i =>
      rw [expr]
      simp only [Expr.occurrences] at h
      exact (decides_identifier rfl h).map _
    | _ => simpa only [expr, Expr.sites] using hplain
  | _ => simpa only [expr, Expr.sites] using hplain

theorem decides_assign {op : AssignOp} {t : Target} {value : Expr}
    (h : a.Serves (t.occurrences scopes))
    (hvalue : (expr (.ofBody a (Scope.owner scopes) isProgram) value).Decides value.sites)
    (hmember : match t with
      | .member m => (member (.ofBody a (Scope.owner scopes) isProgram) m).Decides m.sites
      | _ => True) :
    (expr (.ofBody a (Scope.owner scopes) isProgram) (.assign span op t value)).Decides
      (Expr.assign span op t value).sites := by
  cases t with
  | identifier i =>
    simp only [Target.occurrences] at h
    cases op with
    | plain =>
      rw [expr]
      exact (decides_identifier rfl h).bind fun _ => hvalue.map _
    | compound op =>
      rw [expr]
      exact (decides_identifier rfl h).bind fun _ => hvalue.then_of_total fun _ => by
        split <;> exact .pure _
  | member m =>
    cases op with
    | plain =>
      rw [expr]
      exact Decides.bind hmember fun _ => hvalue.map _
    | compound op =>
      rw [expr]
      exact (hvalue.bind fun _ => Decides.map hmember _).congr
        (by simp only [Expr.sites, Target.sites, allLegal_append, and_comm])

/-- A call looks at a name or a property instead of its value. -/
theorem decides_call {callee : Expr} {arguments : List Expr}
    (h : a.Serves (callee.occurrences scopes))
    (hcallee : (expr (.ofBody a (Scope.owner scopes) isProgram) callee).Decides callee.sites)
    (hmember : match callee with
      | .member m => (member (.ofBody a (Scope.owner scopes) isProgram) m).Decides m.sites
      | _ => True)
    (harguments : (exprList (.ofBody a (Scope.owner scopes) isProgram) arguments).Decides
      (exprSites arguments)) :
    (expr (.ofBody a (Scope.owner scopes) isProgram) (.call span callee arguments)).Decides
      (Expr.call span callee arguments).sites := by
  have hplain := hcallee.bind fun f =>
    harguments.map fun cs => TypedCode.mk .boxed (.call (f.inRep .boxed) cs)
  cases callee with
  | member m =>
    rw [expr]
    exact Decides.bind hmember fun _ => harguments.map _
  | identifier i =>
    rw [expr]
    simp only [Expr.occurrences] at h
    exact (decides_identifier rfl h).bind fun _ => harguments.map _
  | _ => simpa only [expr, Expr.sites] using hplain

variable {around : List Stmt} {jumps : Jumps}

theorem decides_ret {argument : Option Expr}
    (h : ∀ e ∈ argument, (expr (.ofBody a (Scope.owner scopes) isProgram) e).Decides e.sites) :
    (stmt (.ofBody a (Scope.owner scopes) isProgram) jumps (.ret span argument)).Decides
      ((Stmt.ret span argument).sites isProgram around) := by
  cases argument with
  | none =>
    rw [stmt_ret_none]
    split
    · rename_i hprogram
      exact .throw (fun hall => (allLegal_cons.mp hall).1 hprogram) trivial
    · rename_i hprogram
      exact .cons hprogram (.pure _)
  | some e =>
    rw [stmt_ret_some]
    split
    · rename_i hprogram
      exact .throw (fun hall => (allLegal_cons.mp hall).1 hprogram) trivial
    · rename_i hprogram
      exact .cons hprogram ((h e rfl).map _)

/-- A label is illegal if it is taken. -/
theorem decides_labeled {label : String} {body : Stmt} (hr : jumps.Reflects around)
    (hf : jumps.InFront around (.labeled span label body))
    (hbody : ∀ {k : Jumps}, k.Reflects (.labeled span label body :: around) →
      k.InFront (.labeled span label body :: around) body →
        (stmt (.ofBody a (Scope.owner scopes) isProgram) k body).Decides
          (body.sites isProgram (.labeled span label body :: around))) :
    (stmt (.ofBody a (Scope.owner scopes) isProgram) jumps (.labeled span label body)).Decides
      ((Stmt.labeled span label body).sites isProgram around) := by
  rw [stmt_labeled]
  split
  · rename_i e he
    obtain ⟨htaken, rfl⟩ := Jumps.eq_of_label_eq_error he
    refine .throw (fun hall => (allLegal_cons.mp hall).1 ?_) trivial
    exact (hr.taken label).mp htaken
  · rename_i labeled hlabeled
    obtain ⟨hr', hunlabelled⟩ := hr.label hf hlabeled
    have hfree : ¬ Site.IsIllegal ⟨isProgram, around, .labeled span label body⟩ := by
      intro htaken
      have := Jumps.isTaken_of_label hlabeled
      rw [(hr.taken label).mpr htaken] at this
      cases this
    split
    · rename_i htakes
      exact .cons hfree (hbody hr' ⟨hunlabelled, fun _ => htakes⟩)
    · rename_i htakes
      have hloop : body.unlabelled.isLoop = false := by
        cases body <;> first | rfl | exact absurd rfl htakes
      have hinside := hr'.enterLabeled fun l hl t ht htl => (hunlabelled l hl t ht htl).symm ▸ hloop
      exact .cons hfree ((hbody hinside (.of_nil rfl _ _)).map _)

/-- Compilation of an expression fails just if a statement of a function in it is illegal. -/
abbrev DecidesExpr (a : Analysis) (isProgram : Bool) (scopes : List Scope) (e : Expr) : Prop :=
  a.Serves (e.occurrences scopes) →
    (expr (.ofBody a (Scope.owner scopes) isProgram) e).Decides e.sites

/-- Compilation of a statement fails just if it is illegal or has an illegal statement in it. -/
abbrev DecidesStmt (a : Analysis) (isProgram : Bool) (scopes : List Scope) (around : List Stmt)
    (jumps : Jumps) (s : Stmt) : Prop :=
  a.Serves (s.occurrences scopes) →
    (stmt (.ofBody a (Scope.owner scopes) isProgram) jumps s).Decides (s.sites isProgram around)

/-- Compilation of a block fails just if it has an illegal statement in it. -/
abbrev DecidesBlock (a : Analysis) (isProgram : Bool) (scopes : List Scope) (around : List Stmt)
    (jumps : Jumps) (b : Block) : Prop :=
  a.Serves (b.occurrences scopes) →
    (block (.ofBody a (Scope.owner scopes) isProgram) jumps b).Decides (b.sites isProgram around)

theorem decides_conditional {test : Expr} {consequent : Stmt} {alternate : Option Stmt}
    (htest : DecidesExpr a isProgram scopes test)
    (hbranch : ∀ s ∈ consequent :: alternate.toList, DecidesStmt a isProgram scopes
      (.conditional span test consequent alternate :: around) jumps s) :
    DecidesStmt a isProgram scopes around jumps
      (.conditional span test consequent alternate) := by
  intro h
  cases alternate with
  | none =>
    simp only [Stmt.occurrences, Analysis.serves_append] at h
    exact .cons id ((htest h.1).bind fun _ => (hbranch consequent (by simp) h.2).map _)
  | some s =>
    simp only [Stmt.occurrences, Analysis.serves_append] at h
    exact .cons id ((htest h.1).bind fun _ => (hbranch consequent (by simp) h.2.1).bind fun _ =>
      (hbranch s (by simp) h.2.2).map _)

theorem decides_switch {discriminant : Expr} {clauses : List SwitchClause}
    (hdiscriminant : DecidesExpr a isProgram scopes discriminant)
    (hclauses : a.Serves (clauseOccurrences scopes clauses) → ∀ slot,
      (clauseList (.ofBody a (Scope.owner scopes) isProgram) (jumps.enter .switch) slot
        clauses).Decides (clauseSites isProgram (.switch span discriminant clauses :: around)
          clauses)) :
    DecidesStmt a isProgram scopes around jumps (.switch span discriminant clauses) := by
  intro h
  simp only [Stmt.occurrences, Analysis.serves_append] at h
  exact .cons id ((hdiscriminant h.1).bind fun _ =>
    (decides_newSlot .boxed).bind fun slot => (hclauses h.2 slot.index).map _)

theorem decides_tryCatch {b : Block} {handled : Option Handler} {finalizer : Option Block}
    (hblock :
      DecidesBlock a isProgram scopes (.tryCatch span b handled finalizer :: around) jumps b)
    (hhandler : ∀ c ∈ handled, a.Serves (c.occurrences scopes) → ∀ code,
      (handler (.ofBody a (Scope.owner scopes) isProgram) jumps code c).Decides
        (c.sites isProgram (.tryCatch span b handled finalizer :: around)))
    (hfinalizer : ∀ f ∈ finalizer,
      DecidesBlock a isProgram scopes (.tryCatch span b handled finalizer :: around) jumps f) :
    DecidesStmt a isProgram scopes around jumps (.tryCatch span b handled finalizer) := by
  intro h
  cases handled with
  | none =>
    cases finalizer with
    | none =>
      simp only [Stmt.occurrences] at h
      exact .cons id ((hblock h).map _)
    | some f =>
      simp only [Stmt.occurrences, Analysis.serves_append] at h
      exact .cons id ((hblock h.1).bind fun _ => (hfinalizer f rfl h.2).map _)
  | some c =>
    cases finalizer with
    | none =>
      simp only [Stmt.occurrences, Analysis.serves_append] at h
      exact .cons id ((hblock h.1).bind fun code => (hhandler c rfl h.2 code).map _)
    | some f =>
      simp only [Stmt.occurrences, Analysis.serves_append] at h
      exact .cons id ((hblock h.1).bind fun code => (hhandler c rfl h.2.1 code).bind fun _ =>
        (hfinalizer f rfl h.2.2).map _)

section Loops

variable {test right : Expr} {body : Stmt}

theorem decides_while (htest : DecidesExpr a isProgram scopes test)
    (hbody : DecidesStmt a isProgram scopes (.while span test body :: around)
      (jumps.enter .loop) body) :
    DecidesStmt a isProgram scopes around jumps (.while span test body) := by
  intro h
  simp only [Stmt.occurrences, Analysis.serves_append] at h
  exact .cons id ((htest h.1).bind fun _ => (hbody h.2).map _)

theorem decides_doWhile (htest : DecidesExpr a isProgram scopes test)
    (hbody : DecidesStmt a isProgram scopes (.doWhile span test body :: around)
      (jumps.enter .loop) body) :
    DecidesStmt a isProgram scopes around jumps (.doWhile span test body) := by
  intro h
  simp only [Stmt.occurrences, Analysis.serves_append] at h
  exact .cons id ((htest h.1).bind fun _ => (hbody h.2).map _)

theorem decides_for {init : ForInit} {test update : Option Expr}
    (hinit : a.Serves (init.occurrences scopes) →
      (forInit (.ofBody a (Scope.owner scopes) isProgram) init).Decides init.sites)
    (htest : a.Serves (optionOccurrences scopes test) →
      (forTest (.ofBody a (Scope.owner scopes) isProgram) test).Decides (optionSites test))
    (hupdate : a.Serves (optionOccurrences scopes update) →
      (forUpdate (.ofBody a (Scope.owner scopes) isProgram) update).Decides (optionSites update))
    (hbody : DecidesStmt a isProgram scopes (.for span init test update body :: around)
      (jumps.enter .loop) body) :
    DecidesStmt a isProgram scopes around jumps (.for span init test update body) := by
  intro h
  rw [stmt_for]
  simp only [Stmt.occurrences, Analysis.serves_append] at h
  exact .cons id ((hinit h.1).bind fun _ => (htest h.2.1).bind fun _ =>
    (hupdate h.2.2.1).bind fun _ => (hbody h.2.2.2).map _)

theorem decides_forIn {left : ForInTarget}
    (hleft : a.Serves (left.occurrences scopes) →
      (forInPlace (.ofBody a (Scope.owner scopes) isProgram) left).Decides left.sites)
    (hright : DecidesExpr a isProgram scopes right)
    (hbody : DecidesStmt a isProgram scopes (.forIn span left right body :: around)
      (jumps.enter .loop) body) :
    DecidesStmt a isProgram scopes around jumps (.forIn span left right body) := by
  intro h
  rw [stmt_forIn]
  simp only [Stmt.occurrences, Analysis.serves_append] at h
  exact .cons id ((hleft h.1).bind fun _ => (hright h.2.1).bind fun _ => (hbody h.2.2).map _)

end Loops

theorem decides_with {id : NodeId} {object : Expr} {body : Stmt}
    (hobject : DecidesExpr a isProgram scopes object)
    (hbody : a.Serves (body.occurrences (.with id :: scopes)) →
      (stmt (.ofBody a (Scope.owner scopes) isProgram) jumps body).Decides
        (body.sites isProgram (.with span id object body :: around))) :
    DecidesStmt a isProgram scopes around jumps (.with span id object body) := by
  intro h
  simp only [Stmt.occurrences, Analysis.serves_append, Analysis.serves_cons] at h
  obtain ⟨ho, ⟨v, hv, haccess⟩, hb⟩ := h
  have hholder : (BodyContext.ofBody a (Scope.owner scopes) isProgram).analysis.withVariable? id =
      some v := hv
  rw [stmt_with]
  simp only [withEntry, hholder, bind_assoc, pure_bind]
  exact .cons not_false ((Decides.of_total (haccess isProgram)).bind fun _ =>
    (hobject ho).bind fun _ => (hbody hb).map _)

end Kinds

mutual

/-- Compilation of an expression fails just if a statement of a function in it is illegal. -/
theorem decides_expr (hself : a.ServesSelf) (isProgram : Bool) (scopes : List Scope) :
    ∀ e : Expr, DecidesExpr a isProgram scopes e
  | .literal _ value, _ => by
    rw [expr]
    exact .pure _
  | .identifier i, h => by
    rw [expr]
    simp only [Expr.occurrences] at h
    exact (decides_identifier rfl h).map _
  | .this _, _ => by
    rw [expr]
    exact .pure _
  | .array _ elements, h => by
    rw [expr]
    simp only [Expr.occurrences] at h
    exact (decides_elementList hself isProgram scopes elements h).map _
  | .object _ properties, h => by
    rw [expr]
    simp only [Expr.occurrences] at h
    exact (decides_propertyList hself isProgram scopes properties h).map _
  | .function f, h => by
    rw [expr]
    simp only [Expr.occurrences] at h
    exact (decides_func hself scopes f h).map _
  | .unary _ _ argument, h => by
    simp only [Expr.occurrences] at h
    have hargument := decides_expr hself isProgram scopes argument h
    cases argument with
    | member m => exact decides_unary h hargument (decides_member hself isProgram scopes m h)
    | _ => exact decides_unary h hargument trivial
  | .update _ op t before, h => by
    rw [expr]
    simp only [Expr.occurrences] at h
    exact (decides_target hself isProgram scopes t h).map _
  | .binary _ op left right, h => by
    rw [expr]
    simp only [Expr.occurrences, Analysis.serves_append] at h
    exact (decides_expr hself isProgram scopes left h.1).bind fun _ =>
      (decides_expr hself isProgram scopes right h.2).map _
  | .logical _ op left right, h => by
    rw [expr]
    simp only [Expr.occurrences, Analysis.serves_append] at h
    exact (decides_expr hself isProgram scopes left h.1).bind fun _ =>
      (decides_expr hself isProgram scopes right h.2).map _
  | .assign _ _ t value, h => by
    simp only [Expr.occurrences, Analysis.serves_append] at h
    have hvalue := decides_expr hself isProgram scopes value h.2
    cases t with
    | member m => exact decides_assign h.1 hvalue (decides_member hself isProgram scopes m h.1)
    | identifier i => exact decides_assign h.1 hvalue trivial
  | .conditional _ test consequent alternate, h => by
    rw [expr]
    simp only [Expr.occurrences, Analysis.serves_append] at h
    exact (decides_expr hself isProgram scopes test h.1).bind fun _ =>
      (decides_expr hself isProgram scopes consequent h.2.1).bind fun _ =>
        (decides_expr hself isProgram scopes alternate h.2.2).map _
  | .call _ callee arguments, h => by
    simp only [Expr.occurrences, Analysis.serves_append] at h
    have hcallee := decides_expr hself isProgram scopes callee h.1
    have harguments := decides_exprList hself isProgram scopes arguments h.2
    cases callee with
    | member m =>
      exact decides_call h.1 hcallee (decides_member hself isProgram scopes m h.1) harguments
    | _ => exact decides_call h.1 hcallee trivial harguments
  | .construct _ callee arguments, h => by
    rw [expr]
    simp only [Expr.occurrences, Analysis.serves_append] at h
    exact (decides_expr hself isProgram scopes callee h.1).bind fun _ =>
      (decides_exprList hself isProgram scopes arguments h.2).map _
  | .sequence _ expressions, h => by
    rw [expr]
    simp only [Expr.occurrences] at h
    exact (decides_typedList hself isProgram scopes expressions h).then_of_total fun cs => by
      cases cs <;> exact .pure _
  | .member m, h => by
    rw [expr]
    simp only [Expr.occurrences] at h
    exact (decides_member hself isProgram scopes m h).map _
termination_by structural x => x

theorem decides_typedList (hself : a.ServesSelf) (isProgram : Bool) (scopes : List Scope) :
    ∀ es : List Expr, a.Serves (exprOccurrences scopes es) →
      (typedList (.ofBody a (Scope.owner scopes) isProgram) es).Decides (exprSites es)
  | [], _ => by
    rw [typedList]
    exact .pure _
  | e :: rest, h => by
    rw [typedList]
    simp only [exprOccurrences, Analysis.serves_append] at h
    exact (decides_expr hself isProgram scopes e h.1).bind fun _ =>
      (decides_typedList hself isProgram scopes rest h.2).map _
termination_by structural x => x

theorem decides_exprList (hself : a.ServesSelf) (isProgram : Bool) (scopes : List Scope) :
    ∀ es : List Expr, a.Serves (exprOccurrences scopes es) →
      (exprList (.ofBody a (Scope.owner scopes) isProgram) es).Decides (exprSites es)
  | [], _ => by
    rw [exprList]
    exact .pure _
  | e :: rest, h => by
    rw [exprList]
    simp only [exprOccurrences, Analysis.serves_append] at h
    exact (decides_expr hself isProgram scopes e h.1).bind fun _ =>
      (decides_exprList hself isProgram scopes rest h.2).map _
termination_by structural x => x

theorem decides_elementList (hself : a.ServesSelf) (isProgram : Bool) (scopes : List Scope) :
    ∀ es : List (Option Expr), a.Serves (elementOccurrences scopes es) →
      (elementList (.ofBody a (Scope.owner scopes) isProgram) es).Decides (elementSites es)
  | [], _ => by
    rw [elementList]
    exact .pure _
  | none :: rest, h => by
    rw [elementList]
    simp only [elementOccurrences] at h
    exact (decides_elementList hself isProgram scopes rest h).map _
  | some e :: rest, h => by
    rw [elementList]
    simp only [elementOccurrences, Analysis.serves_append] at h
    exact (decides_expr hself isProgram scopes e h.1).bind fun _ =>
      (decides_elementList hself isProgram scopes rest h.2).map _
termination_by structural x => x

theorem decides_propertyList (hself : a.ServesSelf) (isProgram : Bool) (scopes : List Scope) :
    ∀ ps : List Property, a.Serves (propertyOccurrences scopes ps) →
      (propertyList (.ofBody a (Scope.owner scopes) isProgram) ps).Decides (propertySites ps)
  | [], _ => by
    rw [propertyList]
    exact .pure _
  | .mk _ key value :: rest, h => by
    rw [propertyList]
    simp only [propertyOccurrences, Analysis.serves_append] at h
    exact (decides_expr hself isProgram scopes value h.1).bind fun _ =>
      (decides_propertyList hself isProgram scopes rest h.2).map _
termination_by structural x => x

theorem decides_member (hself : a.ServesSelf) (isProgram : Bool) (scopes : List Scope) :
    ∀ m : Member,
    a.Serves (m.occurrences scopes) →
      (member (.ofBody a (Scope.owner scopes) isProgram) m).Decides m.sites
  | .named _ object property, h => by
    rw [member]
    simp only [Member.occurrences] at h
    exact (decides_expr hself isProgram scopes object h).map _
  | .computed _ object property, h => by
    rw [member]
    simp only [Member.occurrences, Analysis.serves_append] at h
    exact (decides_expr hself isProgram scopes object h.1).bind fun _ =>
      (decides_expr hself isProgram scopes property h.2).map _
termination_by structural x => x

theorem decides_target (hself : a.ServesSelf) (isProgram : Bool) (scopes : List Scope) :
    ∀ t : Target,
    a.Serves (t.occurrences scopes) →
      (target (.ofBody a (Scope.owner scopes) isProgram) t).Decides t.sites
  | .identifier i, h => by
    rw [target]
    simp only [Target.occurrences] at h
    exact (decides_identifier rfl h).map _
  | .member m, h => by
    rw [target]
    simp only [Target.occurrences] at h
    exact decides_member hself isProgram scopes m h
termination_by structural x => x

/-- Compilation of a function fails just if one of its statements is illegal. -/
theorem decides_func (hself : a.ServesSelf) (scopes : List Scope) : ∀ f : Func,
    a.Serves (f.occurrences scopes) → (liftM (func a f) : Compile FunctionCode).Decides f.sites
  | .mk span id name params strict isExpression bodySpan body, h => by
    simp only [Func.occurrences] at h
    have hbody := decides_stmtList hself false
      (.function (.mk span id name params strict isExpression bodySpan body) :: scopes)
      Jumps.reflects_none rfl body h
    have hdeclared := decides_hoistList hself false
      (.function (.mk span id name params strict isExpression bodySpan body) :: scopes) body h
    have hparts := (hbody.bind fun statements => (decides_selfEntry hself id).bind fun self =>
      hdeclared.map fun declared => (statements, self ++ declared)) .initial
    rw [func]
    refine .lift (fun hall => ?_) fun hnot => ?_
    · obtain ⟨r, hr⟩ := hparts.1 hall
      exact ⟨_, congrArg (· >>= _) hr⟩
    · obtain ⟨e, he, hjump⟩ := hparts.2 hnot
      exact ⟨e, congrArg (· >>= _) he, hjump⟩
termination_by structural x => x

/-- Compilation of statements fails just if one of them is illegal. -/
theorem decides_stmtList (hself : a.ServesSelf) (isProgram : Bool) (scopes : List Scope)
    {around : List Stmt} {jumps : Jumps} (hr : jumps.Reflects around) (hp : jumps.pending = []) :
    ∀ ss : List Stmt, a.Serves (stmtOccurrences scopes ss) →
      (stmtList (.ofBody a (Scope.owner scopes) isProgram) jumps ss).Decides
        (stmtSites isProgram around ss)
  | [], _ => by
    rw [stmtList]
    exact .pure _
  | s :: rest, h => by
    simp only [stmtOccurrences, Analysis.serves_append] at h
    have hrest := decides_stmtList hself isProgram scopes hr hp rest h.2
    have hplain := (decides_stmt hself isProgram scopes hr s (.of_nil hp _ _) h.1).bind fun c =>
      hrest.map fun cs => c :: cs
    cases s with
    | function f =>
      rw [stmtList]
      exact hrest.cons id
    | empty span =>
      rw [stmtList]
      exact hrest.cons id
    | _ => simpa only [stmtList, stmtSites] using hplain
termination_by structural x => x

theorem decides_declaratorList (hself : a.ServesSelf) (isProgram : Bool) (scopes : List Scope) :
    ∀ ds : List Declarator, a.Serves (declaratorOccurrences scopes ds) →
      (declaratorList (.ofBody a (Scope.owner scopes) isProgram) ds).Decides (declaratorSites ds)
  | [], _ => by
    rw [declaratorList]
    exact .pure _
  | .mk _ name none :: rest, h => by
    rw [declaratorList]
    simp only [declaratorOccurrences, Analysis.serves_append] at h
    exact decides_declaratorList hself isProgram scopes rest h.2
  | .mk _ name (some init) :: rest, h => by
    rw [declaratorList]
    simp only [declaratorOccurrences, Analysis.serves_append] at h
    exact (decides_identifier rfl h.1).bind fun _ =>
      (decides_expr hself isProgram scopes init h.2.1).bind fun _ =>
        (decides_declaratorList hself isProgram scopes rest h.2.2).map _
termination_by structural x => x

theorem decides_clauseList (hself : a.ServesSelf) (isProgram : Bool) (scopes : List Scope)
    {around : List Stmt} {jumps : Jumps} (hr : jumps.Reflects around) (hp : jumps.pending = [])
    (slot : Nat) : ∀ cs : List SwitchClause, a.Serves (clauseOccurrences scopes cs) →
      (clauseList (.ofBody a (Scope.owner scopes) isProgram) jumps slot cs).Decides
        (clauseSites isProgram around cs)
  | [], _ => by
    rw [clauseList]
    exact .pure _
  | .mk _ none body :: rest, h => by
    rw [clauseList]
    simp only [clauseOccurrences, Analysis.serves_append] at h
    exact (decides_stmtList hself isProgram scopes hr hp body h.1).bind fun _ =>
      (decides_clauseList hself isProgram scopes hr hp slot rest h.2).map _
  | .mk _ (some test) body :: rest, h => by
    rw [clauseList]
    simp only [clauseOccurrences, Analysis.serves_append] at h
    exact (decides_expr hself isProgram scopes test h.1).bind fun _ =>
      (decides_stmtList hself isProgram scopes hr hp body h.2.1).bind fun _ =>
        (decides_clauseList hself isProgram scopes hr hp slot rest h.2.2).map _
termination_by structural x => x

theorem decides_block (hself : a.ServesSelf) (isProgram : Bool) (scopes : List Scope)
    {around : List Stmt} {jumps : Jumps} (hr : jumps.Reflects around) (hp : jumps.pending = []) :
    ∀ b : Block, DecidesBlock a isProgram scopes around jumps b
  | .mk _ body, h => by
    rw [block]
    simp only [Block.occurrences] at h
    exact (decides_stmtList hself isProgram scopes hr hp body h).map _
termination_by structural x => x

theorem decides_handler (hself : a.ServesSelf) (isProgram : Bool) (scopes : List Scope)
    {around : List Stmt} {jumps : Jumps} (hr : jumps.Reflects around) (hp : jumps.pending = [])
    (code : StatementCode) : ∀ c : Handler, a.Serves (c.occurrences scopes) →
      (handler (.ofBody a (Scope.owner scopes) isProgram) jumps code c).Decides
        (c.sites isProgram around)
  | .mk _ param b, h => by
    rw [handler]
    simp only [Handler.occurrences] at h
    have hbody := (Analysis.serves_cons.mp h).2
    exact (decides_identifier rfl h).bind fun _ =>
      (decides_block hself isProgram (.catch param :: scopes) hr hp b hbody).map _
termination_by structural x => x

theorem decides_forInit (hself : a.ServesSelf) (isProgram : Bool) (scopes : List Scope) :
    ∀ init : ForInit, a.Serves (init.occurrences scopes) →
      (forInit (.ofBody a (Scope.owner scopes) isProgram) init).Decides init.sites
  | .nothing, _ => .pure _
  | .declaration _ ds, h => by
    simp only [ForInit.occurrences] at h
    exact decides_declaratorList hself isProgram scopes ds h
  | .expression e, h => by
    simp only [ForInit.occurrences] at h
    exact (decides_expr hself isProgram scopes e h).map _
termination_by structural x => x

theorem decides_forTest (hself : a.ServesSelf) (isProgram : Bool) (scopes : List Scope) :
    ∀ test : Option Expr, a.Serves (optionOccurrences scopes test) →
      (forTest (.ofBody a (Scope.owner scopes) isProgram) test).Decides (optionSites test)
  | none, _ => .pure _
  | some e, h => by
    simp only [optionOccurrences] at h
    exact (decides_expr hself isProgram scopes e h).map _
termination_by structural x => x

theorem decides_forUpdate (hself : a.ServesSelf) (isProgram : Bool) (scopes : List Scope) :
    ∀ update : Option Expr, a.Serves (optionOccurrences scopes update) →
      (forUpdate (.ofBody a (Scope.owner scopes) isProgram) update).Decides (optionSites update)
  | none, _ => .pure _
  | some e, h => by
    simp only [optionOccurrences] at h
    exact (decides_expr hself isProgram scopes e h).map _
termination_by structural x => x

theorem decides_forInPlace (hself : a.ServesSelf) (isProgram : Bool) (scopes : List Scope) :
    ∀ left : ForInTarget, a.Serves (left.occurrences scopes) →
      (forInPlace (.ofBody a (Scope.owner scopes) isProgram) left).Decides left.sites
  | .declaration i, h => by
    simp only [ForInTarget.occurrences] at h
    exact (decides_identifier rfl h).map _
  | .target t, h => by
    simp only [ForInTarget.occurrences] at h
    exact decides_target hself isProgram scopes t h
termination_by structural x => x

/-- Compilation of a statement fails just if it is illegal or has an illegal statement in it. -/
theorem decides_stmt (hself : a.ServesSelf) (isProgram : Bool) (scopes : List Scope)
    {around : List Stmt} {jumps : Jumps} (hr : jumps.Reflects around) :
    ∀ s : Stmt, jumps.InFront around s → DecidesStmt a isProgram scopes around jumps s
  | .expression _ e, _, h => by
    simp only [Stmt.occurrences] at h
    exact .cons id ((decides_expr hself isProgram scopes e h).map _)
  | .block b, hf, h => by
    simp only [Stmt.occurrences] at h
    exact .cons id
      (decides_block hself isProgram scopes (hr.plain rfl rfl rfl) (hf.pending rfl) b h)
  | .empty _, _, _ | .debugger _, _, _ | .function _, _, _ => .cons id (.pure _)
  | .declaration _ ds, _, h => by
    simp only [Stmt.occurrences] at h
    exact .cons id ((decides_declaratorList hself isProgram scopes ds h).map _)
  | .ret _ none, _, _ => decides_ret nofun
  | .ret _ (some e), _, h => by
    simp only [Stmt.occurrences] at h
    refine decides_ret ?_
    rintro _ ⟨⟩
    exact decides_expr hself isProgram scopes e h
  | .brk _ label, hf, _ =>
    (decides_jump (fun _ => Jumps.isJump_of_breakTarget)
      (hr.exists_breakTarget_iff (hf.pending rfl) label)).map _
  | .cont _ label, hf, _ =>
    (decides_jump (fun _ => Jumps.isJump_of_continueTarget)
      (hr.exists_continueTarget_iff (hf.pending rfl) label)).map _
  | .labeled _ _ body, hf, h => by
    simp only [Stmt.occurrences] at h
    exact decides_labeled hr hf fun hr' hf' => decides_stmt hself isProgram scopes hr' body hf' h
  | .conditional _ test consequent none, hf, h =>
    decides_conditional (decides_expr hself isProgram scopes test)
      (List.forall_mem_singleton.mpr (decides_stmt hself isProgram scopes (hr.plain rfl rfl rfl)
        consequent (.of_nil (hf.pending rfl) _ _))) h
  | .conditional _ test consequent (some alternate), hf, h =>
    decides_conditional (decides_expr hself isProgram scopes test)
      (List.forall_mem_cons.mpr ⟨decides_stmt hself isProgram scopes (hr.plain rfl rfl rfl)
        consequent (.of_nil (hf.pending rfl) _ _),
        List.forall_mem_singleton.mpr (decides_stmt hself isProgram scopes (hr.plain rfl rfl rfl)
          alternate (.of_nil (hf.pending rfl) _ _))⟩) h
  | .switch span discriminant clauses, hf, h =>
    decides_switch (decides_expr hself isProgram scopes discriminant)
      (fun hclauses slot => decides_clauseList hself isProgram scopes
        (hr.enter hf rfl (by simp [Stmt.isLoop]) (by simp [Stmt.isSwitch])) rfl slot clauses
        hclauses) h
  | .throw _ e, _, h => by
    simp only [Stmt.occurrences] at h
    exact .cons id ((decides_expr hself isProgram scopes e h).map _)
  | .tryCatch _ b none none, hf, h =>
    decides_tryCatch
      (decides_block hself isProgram scopes (hr.plain rfl rfl rfl) (hf.pending rfl) b) nofun nofun h
  | .tryCatch span b none (some f), hf, h => by
    have hr' := hr.plain (s := .tryCatch span b none (some f)) rfl rfl rfl
    refine decides_tryCatch (decides_block hself isProgram scopes hr' (hf.pending rfl) b)
      nofun ?_ h
    rintro _ ⟨⟩
    exact decides_block hself isProgram scopes hr' (hf.pending rfl) f
  | .tryCatch span b (some c) none, hf, h => by
    have hr' := hr.plain (s := .tryCatch span b (some c) none) rfl rfl rfl
    refine decides_tryCatch (decides_block hself isProgram scopes hr' (hf.pending rfl) b)
      ?_ nofun h
    rintro _ ⟨⟩ hc code
    exact decides_handler hself isProgram scopes hr' (hf.pending rfl) code c hc
  | .tryCatch span b (some c) (some f), hf, h => by
    have hr' := hr.plain (s := .tryCatch span b (some c) (some f)) rfl rfl rfl
    refine decides_tryCatch (decides_block hself isProgram scopes hr' (hf.pending rfl) b)
      ?_ ?_ h <;> rintro _ ⟨⟩
    · exact fun hc code => decides_handler hself isProgram scopes hr' (hf.pending rfl) code c hc
    · exact decides_block hself isProgram scopes hr' (hf.pending rfl) f
  | .while _ test body, hf, h =>
    decides_while (decides_expr hself isProgram scopes test)
      (decides_stmt hself isProgram scopes (hr.enterLoop hf rfl) body (.of_nil rfl _ _)) h
  | .doWhile _ test body, hf, h =>
    decides_doWhile (decides_expr hself isProgram scopes test)
      (decides_stmt hself isProgram scopes (hr.enterLoop hf rfl) body (.of_nil rfl _ _)) h
  | .for _ init test update body, hf, h =>
    decides_for (decides_forInit hself isProgram scopes init)
      (decides_forTest hself isProgram scopes test)
      (decides_forUpdate hself isProgram scopes update)
      (decides_stmt hself isProgram scopes (hr.enterLoop hf rfl) body (.of_nil rfl _ _)) h
  | .forIn _ left right body, hf, h =>
    decides_forIn (decides_forInPlace hself isProgram scopes left)
      (decides_expr hself isProgram scopes right)
      (decides_stmt hself isProgram scopes (hr.enterLoop hf rfl) body (.of_nil rfl _ _)) h
  | .with _ id object body, hf, h =>
    decides_with (decides_expr hself isProgram scopes object)
      (decides_stmt hself isProgram (.with id :: scopes) (hr.plain rfl rfl rfl) body
        (.of_nil (hf.pending rfl) _ _)) h
termination_by structural x => x

/-- Compilation of the functions declared in statements fails just if one of theirs is illegal. -/
theorem decides_hoistList (hself : a.ServesSelf) (isProgram : Bool) (scopes : List Scope) :
    ∀ ss : List Stmt, a.Serves (stmtOccurrences scopes ss) →
      (hoistList (.ofBody a (Scope.owner scopes) isProgram) ss).Decides (declaredSites ss)
  | [], _ => .pure _
  | s :: rest, h => by
    simp only [stmtOccurrences, Analysis.serves_append] at h
    exact (decides_hoist hself isProgram scopes s h.1).bind fun _ =>
      (decides_hoistList hself isProgram scopes rest h.2).map _
termination_by structural x => x

theorem decides_hoistBlock (hself : a.ServesSelf) (isProgram : Bool) (scopes : List Scope) :
    ∀ b : Block, a.Serves (b.occurrences scopes) →
      (hoistBlock (.ofBody a (Scope.owner scopes) isProgram) b).Decides b.declaredSites
  | .mk _ body, h => by
    simp only [Block.occurrences] at h
    exact decides_hoistList hself isProgram scopes body h
termination_by structural x => x

theorem decides_hoistClauses (hself : a.ServesSelf) (isProgram : Bool) (scopes : List Scope) :
    ∀ cs : List SwitchClause, a.Serves (clauseOccurrences scopes cs) →
      (hoistClauses (.ofBody a (Scope.owner scopes) isProgram) cs).Decides (clauseDeclaredSites cs)
  | [], _ => .pure _
  | .mk _ none body :: rest, h => by
    simp only [clauseOccurrences, Analysis.serves_append] at h
    exact (decides_hoistList hself isProgram scopes body h.1).bind fun _ =>
      (decides_hoistClauses hself isProgram scopes rest h.2).map _
  | .mk _ (some test) body :: rest, h => by
    simp only [clauseOccurrences, Analysis.serves_append] at h
    exact (decides_hoistList hself isProgram scopes body h.2.1).bind fun _ =>
      (decides_hoistClauses hself isProgram scopes rest h.2.2).map _
termination_by structural x => x

/-- Compilation of the functions declared in a statement fails just if one of theirs is illegal. -/
theorem decides_hoist (hself : a.ServesSelf) (isProgram : Bool) (scopes : List Scope) : ∀ s : Stmt,
    a.Serves (s.occurrences scopes) →
      (hoist (.ofBody a (Scope.owner scopes) isProgram) s).Decides s.declaredSites
  | .function (.mk span id none params strict isExpression bodySpan body), h => .pure _
  | .function (.mk span id (some name) params strict isExpression bodySpan body), h => by
    simp only [Stmt.occurrences, Analysis.serves_append] at h
    exact (decides_func hself (Scope.hoisted scopes) _ h.2).then_of_total fun _ =>
      ((decides_identifier rfl h.1).map _).map _
  | .block b, h => by
    simp only [Stmt.occurrences] at h
    exact decides_hoistBlock hself isProgram scopes b h
  | .labeled _ _ body, h => by
    simp only [Stmt.occurrences] at h
    exact decides_hoist hself isProgram scopes body h
  | .while _ _ body, h => by
    simp only [Stmt.occurrences, Analysis.serves_append] at h
    exact decides_hoist hself isProgram scopes body h.2
  | .doWhile _ _ body, h => by
    simp only [Stmt.occurrences, Analysis.serves_append] at h
    exact decides_hoist hself isProgram scopes body h.2
  | .with _ id _ body, h => by
    simp only [Stmt.occurrences, Analysis.serves_append, Analysis.serves_cons] at h
    exact decides_hoist hself isProgram (.with id :: scopes) body h.2.2
  | .conditional _ _ c none, h => by
    simp only [Stmt.occurrences, Analysis.serves_append] at h
    exact decides_hoist hself isProgram scopes c h.2
  | .conditional _ _ c (some b), h => by
    simp only [Stmt.occurrences, Analysis.serves_append] at h
    exact (decides_hoist hself isProgram scopes c h.2.1).bind fun _ =>
      (decides_hoist hself isProgram scopes b h.2.2).map _
  | .for _ _ _ _ body, h => by
    simp only [Stmt.occurrences, Analysis.serves_append] at h
    exact decides_hoist hself isProgram scopes body h.2.2.2
  | .forIn _ _ _ body, h => by
    simp only [Stmt.occurrences, Analysis.serves_append] at h
    exact decides_hoist hself isProgram scopes body h.2.2
  | .switch _ _ clauses, h => by
    simp only [Stmt.occurrences, Analysis.serves_append] at h
    exact decides_hoistClauses hself isProgram scopes clauses h.2
  | .tryCatch _ b none none, h => by
    simp only [Stmt.occurrences] at h
    exact (decides_hoistBlock hself isProgram scopes b h).map _
  | .tryCatch _ b none (some f), h => by
    simp only [Stmt.occurrences, Analysis.serves_append] at h
    exact (decides_hoistBlock hself isProgram scopes b h.1).bind fun _ =>
      (decides_hoistBlock hself isProgram scopes f h.2).map _
  | .tryCatch _ b (some (.mk _ param hb)) none, h => by
    simp only [Stmt.occurrences, Handler.occurrences, Analysis.serves_append,
      Analysis.serves_cons] at h
    exact (decides_hoistBlock hself isProgram scopes b h.1).bind fun _ =>
      (decides_hoistBlock hself isProgram (.catch param :: scopes) hb h.2.2).map _
  | .tryCatch _ b (some (.mk _ param hb)) (some f), h => by
    simp only [Stmt.occurrences, Handler.occurrences, Analysis.serves_append,
      Analysis.serves_cons] at h
    exact (decides_hoistBlock hself isProgram scopes b h.1).bind fun _ =>
      (decides_hoistBlock hself isProgram (.catch param :: scopes) hb h.2.1.2).bind fun _ =>
        (decides_hoistBlock hself isProgram scopes f h.2.2).map _
  | .expression .., _ => .pure _
  | .empty _, _ => .pure _
  | .debugger _, _ => .pure _
  | .ret .., _ => .pure _
  | .brk .., _ => .pure _
  | .cont .., _ => .pure _
  | .throw .., _ => .pure _
  | .declaration .., _ => .pure _
termination_by structural x => x

end

/-- Compilation of a script fails just if one of its statements is illegal. -/
theorem program_decides (hself : a.ServesSelf) {p : Program} (h : a.Serves p.occurrences) :
    (AllLegal p.sites → ∃ code, program a p = .ok code) ∧
      (¬ AllLegal p.sites → ∃ e, program a p = .error e ∧ e.IsJump) := by
  have hparts :=
    ((decides_stmtList hself true [] Jumps.reflects_none rfl p.body h).bind fun statements =>
    (decides_hoistList hself true [] p.body h).map fun entry => (statements, entry)) .initial
  unfold program
  refine ⟨fun hall => ?_, fun hnot => ?_⟩
  · obtain ⟨r, hr⟩ := hparts.1 hall
    exact ⟨_, congrArg (· >>= _) hr⟩
  · obtain ⟨e, he, hjump⟩ := hparts.2 hnot
    exact ⟨e, congrArg (· >>= _) he, hjump⟩

/-- Compilation of a script only fails at a jump. -/
theorem isJump_of_program (hself : a.ServesSelf) {p : Program} (h : a.Serves p.occurrences)
    {e : StaticError} (he : program a p = .error e) : e.IsJump := by
  have hdecides := program_decides hself h
  by_cases hall : AllLegal p.sites
  · obtain ⟨code, hcode⟩ := hdecides.1 hall
    cases he.symm.trans hcode
  · obtain ⟨e', he', hjump⟩ := hdecides.2 hall
    cases he.symm.trans he'
    exact hjump

end Compile

/-! ### Scripts -/

section

variable {p : Program} {r a : Analysis} {origin : VariableId → NodeId}

/-- What stands for a variable can be accessed wherever it occurs. -/
theorem Program.Scoped.serves (h : p.Scoped r origin) (hlaid : r.LaidOut a) :
    a.Serves p.occurrences := by
  intro o ho
  obtain ⟨env, hreads, hresolved⟩ := h.occurrences o ho
  obtain ⟨v, hv, haccesses⟩ := hresolved.accesses h.sound hreads.valid
  refine ⟨v, (hlaid.same.denoted? o.mention).trans hv, fun isProgram => ?_⟩
  rw [← hreads.current_eq]
  exact hlaid.total_access h.parent hreads.valid haccesses isProgram

theorem Program.Scoped.servesSelf (h : p.Scoped r origin) (hlaid : r.LaidOut a) : a.ServesSelf :=
  fun _ _ hv => hlaid.total_selfBinding h.sound hv false

end

/-- In a script that is accepted every occurrence of a variable has got one, which can be accessed
from the body around.  A captured variable is accessed through as many links as functions with
records lie between that body and the one it belongs to.  So compilation fails at most because of a
jump. -/
theorem Program.lookups_succeed {source : String} {p : Program} {options : CompileOptions}
    {a : Analysis} (hp : Program.parse source = .ok p) (ha : analyze p options = .ok a) :
    (∀ e, p.compile options = .error e → e.IsJump) ∧
    ∀ o ∈ p.occurrences, ∃ v, o.mention.denoted? a = some v ∧ ∀ isProgram s,
      (∃ access, Compile.access (.ofBody a (Scope.owner o.scopes) isProgram) v s = .ok access) ∧
      ∀ w f, a.Uses v w → (a.var w).field = some f → ∃ n s',
        Compile.fieldAddress (.ofBody a (Scope.owner o.scopes) isProgram) f s =
          .ok (⟨n, f.index⟩, s') ∧
        s'.hops[n]? = some (a.recordsBelow (Scope.path o.scopes) (a.var w).body) := by
  obtain ⟨r, origin, hscoped, hlaid⟩ := laidOut_of_analyze (Program.wellNumbered_of_parse hp) ha
  refine ⟨fun e he => ?_, fun o ho => ?_⟩
  · unfold Program.compile at he
    rcases Compile.except_bind_eq_error he with he | ⟨_, ha', he⟩
    · rw [ha] at he
      cases he
    · obtain rfl := Except.ok.inj (ha.symm.trans ha')
      rcases Compile.except_bind_eq_error he with he | ⟨_, _, he⟩
      · exact Compile.isJump_of_program (hscoped.servesSelf hlaid) (hscoped.serves hlaid) he
      · cases he
  · obtain ⟨env, hreads, hresolved⟩ := hscoped.occurrences o ho
    obtain ⟨v, hv, haccesses⟩ := hresolved.accesses hscoped.sound hreads.valid
    rw [← hreads.current_eq, ← hreads.bodies]
    refine ⟨v, (hlaid.same.denoted? o.mention).trans hv, fun isProgram s =>
      ⟨?_, fun w f huses hf => ?_⟩⟩
    · exact (hlaid.total_access hscoped.parent hreads.valid haccesses isProgram).exists_ok s
    · obtain ⟨_, _, hvar⟩ := hlaid.same.var w
      have hkind := hlaid.kind_of_isCaptured hscoped.sound
          (v := w) (by rw [Variable.isCaptured, hf]; rfl)
      have hreaches := haccesses.reaches (hlaid.same.uses.mp huses) fun h => by simp [h] at hkind
      rw [show (a.var w).body = (r.var w).body by rw [hvar]]
      exact Compile.fieldAddress_eq_ok
        (hlaid.findIdx?_chain hscoped.parent hreads.valid hreaches hf _) s

theorem Program.lookups_succeed_nested : ∃ p a, Program.parse
      "var o = {}; function f(x) { with (o) { return function () { return x; }; } }" = .ok p ∧
    analyze p ⟨false, true⟩ = .ok a ∧ p.occurrences.length = 5 ∧
    ∀ o ∈ p.occurrences, ∃ v, o.mention.denoted? a = some v ∧
      ∃ access, Compile.access (.ofBody a (Scope.owner o.scopes) false) v .initial =
        .ok access := by
  obtain ⟨p, a, hp, ha, hlength⟩ := Program.exists_analyze
    "var o = {}; function f(x) { with (o) { return function () { return x; }; } }" ⟨false, true⟩
    (fun p _ => p.occurrences.length == 5) (by decide +kernel)
  refine ⟨p, a, hp, ha, beq_iff_eq.mp hlength, fun o ho => ?_⟩
  obtain ⟨v, hv, haccess⟩ := (Program.lookups_succeed hp ha).2 o ho
  exact ⟨v, hv, (haccess false .initial).1⟩

/-- A script that is accepted compiles unless a statement of it or of one of its functions is
illegal where it stands: only then it is rejected, because of a jump or a label. -/
theorem Program.compile_fails_iff_illegal {source : String} {p : Program} {options : CompileOptions}
    {a : Analysis} (hp : Program.parse source = .ok p) (ha : analyze p options = .ok a) :
    ((∃ e, p.compile options = .error e ∧ e.IsJump) ↔ ∃ x ∈ p.sites, x.IsIllegal) ∧
    ((¬ ∃ e, p.compile options = .error e ∧ e.IsJump) → ∃ code, p.compile options = .ok code) := by
  obtain ⟨r, origin, hscoped, hlaid⟩ := laidOut_of_analyze (Program.wellNumbered_of_parse hp) ha
  have hdecides := Compile.program_decides (hscoped.servesSelf hlaid) (hscoped.serves hlaid)
  have hcompile : p.compile options = (Compile.program a p).bind fun code => .ok ⟨code, a⟩ := by
    unfold Program.compile
    rw [ha]
    rfl
  by_cases hall : AllLegal p.sites
  · obtain ⟨code, hcode⟩ := hdecides.1 hall
    have hok : p.compile options = .ok ⟨code, a⟩ := by rw [hcompile, hcode]; rfl
    refine ⟨⟨fun ⟨e, he, _⟩ => ?_, fun ⟨x, hx, hillegal⟩ => absurd hillegal (hall x hx)⟩,
      fun _ => ⟨_, hok⟩⟩
    cases hok.symm.trans he
  · obtain ⟨e, he, hjump⟩ := hdecides.2 hall
    have herror : p.compile options = .error e := by rw [hcompile, he]; rfl
    refine ⟨⟨fun _ => ?_, fun _ => ⟨e, herror, hjump⟩⟩, fun hnot => absurd ⟨e, herror, hjump⟩ hnot⟩
    simpa [AllLegal] using hall

theorem Program.compile_fails_jumpOutOfFunction : ∃ p a,
    Program.parse "a: while (x) { y = function () { continue a; }; }" = .ok p ∧
    analyze p ⟨false, true⟩ = .ok a ∧ ∃ e, p.compile ⟨false, true⟩ = .error e ∧ e.IsJump := by
  obtain ⟨p, a, hp, ha, hillegal⟩ := Program.exists_analyze
    "a: while (x) { y = function () { continue a; }; }" ⟨false, true⟩
    (fun p _ => decide (∃ x ∈ p.sites, x.IsIllegal)) (by decide +kernel)
  exact ⟨p, a, hp, ha, (Program.compile_fails_iff_illegal hp ha).1.mpr (of_decide_eq_true hillegal)⟩

end ScriptEngine
