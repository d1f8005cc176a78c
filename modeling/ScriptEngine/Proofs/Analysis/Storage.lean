import ScriptEngine.Proofs.Analysis.Strictness

/-!
# Names of storage

Where variables are stored.  A variable that a script declares is stored under its own name, and it
is the one that its body has under this name.  The parameters of `catch` clauses and the objects of
`with` statements are stored under names with a number, each under a number of its own.

## Main definitions

* `MadeUp` : the names that are made up with a number.
* `Resolve.Keeps`, `Resolve.Invariant` : what resolution does not change about the tables.
* `Resolving.Stored` : all variables are stored apart from each other.

## Main statements

* `Resolve.Invariant.keeps_stmt` : what holds where scopes are opened and names are resolved holds
  throughout.
* `Resolve.stored_of_program` : the variables of a script are stored apart from each other.
-/

namespace ScriptEngine

/-! ### Names made up -/

/-- A name that is made up with a number. -/
inductive MadeUp (n : Nat) : String → Prop
  | catch_ : MadeUp n s!"%catch{n}"
  | with_ : MadeUp n s!"%with{n}"

namespace MadeUp

variable {m n : Nat} {x : String}

theorem toList_catch (n : Nat) :
    (s!"%catch{n}").toList = '%' :: 'c' :: ("atch".toList ++ Nat.toDigits 10 n) := by
  rw [show s!"%catch{n}" = "%catch" ++ n.repr from rfl, String.toList_append, Nat.toList_repr]
  rfl

theorem toList_with (n : Nat) :
    (s!"%with{n}").toList = '%' :: 'w' :: ("ith".toList ++ Nat.toDigits 10 n) := by
  rw [show s!"%with{n}" = "%with" ++ n.repr from rfl, String.toList_append, Nat.toList_repr]
  rfl

/-- No identifier begins like a name that is made up. -/
theorem head? (h : MadeUp n x) : x.toList.head? = some '%' := by
  cases h with
  | catch_ => rw [toList_catch]; rfl
  | with_ => rw [toList_with]; rfl

/-- The number can be read off the name. -/
theorem unique (h : MadeUp m x) (h' : MadeUp n x) : m = n := by
  have hdigits (hmn : Nat.toDigits 10 m = Nat.toDigits 10 n) : m = n := by
    have := congrArg (Nat.ofDigitChars 10 · 0) hmn
    simpa only [Nat.ofDigitChars_toDigits (by decide : 1 < 10) le_rfl] using this
  generalize hxy : x = y at h'
  replace hxy := congrArg String.toList hxy
  cases h <;> cases h' <;> simp only [toList_catch, toList_with, List.cons.injEq] at hxy
  · exact hdigits (List.append_cancel_left hxy.2.2)
  · exact absurd hxy.2.1 (by decide)
  · exact absurd hxy.2.1 (by decide)
  · exact hdigits (List.append_cancel_left hxy.2.2)

end MadeUp

/-! ### Invariants of resolution -/

namespace Resolve

variable {α β : Type} {I : Resolving → Prop}

/-- Unless it fails, a computation keeps a property of the tables. -/
def Keeps (I : Resolving → Prop) (x : Resolve α) : Prop :=
  ∀ ⦃s r t⦄, x.run s = .ok (r, t) → I s → I t

namespace Keeps

variable {x : Resolve α} {f : α → Resolve β}

theorem pure (r : α) : Keeps I (Pure.pure r : Resolve α) := by
  intro s r' t h hs
  cases h
  exact hs

theorem throw (e : StaticError) : Keeps I (MonadExcept.throw e : Resolve α) :=
  nofun

theorem bind (hx : Keeps I x) (hf : ∀ r, Keeps I (f r)) : Keeps I (x >>= f) := by
  intro s q t h hs
  obtain ⟨r, u, hr, hq⟩ := run_bind_eq_ok h
  exact hf r hq (hx hr hs)

/-- What comes after an error does not matter. -/
theorem throw_bind (e : StaticError) : Keeps I ((MonadExcept.throw e : Resolve α) >>= f) :=
  nofun

theorem ite {c : Prop} [Decidable c] {y : Resolve α} (hx : Keeps I x) (hy : Keeps I y) :
    Keeps I (if c then x else y) := by
  split
  · exact hx
  · exact hy

/-- The tables are looked at. -/
theorem tables {g : Analysis → Resolve β}
    (h : ∀ s, I s → ∀ r t, (g s.analysis).run s = .ok (r, t) → I t) :
    Keeps I (Resolve.tables >>= g) := by
  intro s q t hrun hs
  obtain ⟨r, u, hr, hq⟩ := run_bind_eq_ok hrun
  cases hr
  exact h s hs q t hq

theorem isStrict (env : Environment) : Keeps I (isStrict env) := by
  intro s r t h hs
  cases h
  exact hs

theorem checkName (strict : Bool) (name : String) : Keeps I (checkName strict name) :=
  .ite (.throw _) (.pure ())

theorem checkTarget (env : Environment) (t : Target) : Keeps I (checkTarget env t) := by
  cases t with
  | identifier i => exact (isStrict env).bind fun strict => checkName strict i.name
  | member m => exact .pure ()

theorem checkParameters (seen : List String) :
    ∀ is : List Identifier, Keeps I (checkParameters seen is)
  | [] => .pure ()
  | i :: rest => by
    unfold Resolve.checkParameters
    refine (checkName true i.name).bind fun _ => ?_
    dsimp only
    split
    · exact .throw_bind _
    · exact checkParameters (i.name :: seen) rest

end Keeps

/-- A property of the tables that is kept where scopes are opened and names are resolved. -/
structure Invariant (I : Resolving → Prop) : Prop where
  identifier : ∀ env i, Keeps I (identifier env i)
  enter : ∀ env f, Keeps I (enter env f)
  enterCatch : ∀ env param, Keeps I (enterCatch env param)
  enterWith : ∀ env id, Keeps I (enterWith env id)

namespace Invariant

mutual

/-- An invariant is kept by what an expression consists of. -/
theorem keeps_expr (hI : Invariant I) (env : Environment) : ∀ e : Expr, Keeps I (expr env e)
  | .literal .. => .pure ()
  | .this _ => .pure ()
  | .identifier i => hI.identifier env i
  | .array _ elements => keeps_elementList hI env elements
  | .object _ properties => keeps_propertyList hI env properties
  | .function f => keeps_func hI env f
  | .unary _ op argument => by
    have hargument := keeps_expr hI env argument
    unfold Resolve.expr
    split
    · refine (Keeps.isStrict env).bind fun strict => ?_
      split
      · exact .throw_bind _
      · exact hargument
    · exact hargument
  | .update _ _ t _ => (Keeps.checkTarget env t).bind fun _ => keeps_target hI env t
  | .binary _ _ left right => (keeps_expr hI env left).bind fun _ => keeps_expr hI env right
  | .logical _ _ left right => (keeps_expr hI env left).bind fun _ => keeps_expr hI env right
  | .assign _ _ t value =>
    (Keeps.checkTarget env t).bind fun _ => (keeps_target hI env t).bind fun _ =>
      keeps_expr hI env value
  | .conditional _ test consequent alternate =>
    (keeps_expr hI env test).bind fun _ => (keeps_expr hI env consequent).bind fun _ =>
      keeps_expr hI env alternate
  | .call _ callee arguments =>
    (keeps_expr hI env callee).bind fun _ => keeps_exprList hI env arguments
  | .construct _ callee arguments =>
    (keeps_expr hI env callee).bind fun _ => keeps_exprList hI env arguments
  | .sequence _ expressions => keeps_exprList hI env expressions
  | .member m => keeps_member hI env m

theorem keeps_exprList (hI : Invariant I) (env : Environment) :
    ∀ es : List Expr, Keeps I (exprList env es)
  | [] => .pure ()
  | e :: rest => (keeps_expr hI env e).bind fun _ => keeps_exprList hI env rest

theorem keeps_elementList (hI : Invariant I) (env : Environment) :
    ∀ es : List (Option Expr), Keeps I (elementList env es)
  | [] => .pure ()
  | none :: rest => keeps_elementList hI env rest
  | some e :: rest => (keeps_expr hI env e).bind fun _ => keeps_elementList hI env rest

theorem keeps_propertyList (hI : Invariant I) (env : Environment) :
    ∀ ps : List Property, Keeps I (propertyList env ps)
  | [] => .pure ()
  | .mk _ _ value :: rest => (keeps_expr hI env value).bind fun _ => keeps_propertyList hI env rest

theorem keeps_member (hI : Invariant I) (env : Environment) : ∀ m : Member, Keeps I (member env m)
  | .named _ object _ => keeps_expr hI env object
  | .computed _ object property =>
    (keeps_expr hI env object).bind fun _ => keeps_expr hI env property

theorem keeps_target (hI : Invariant I) (env : Environment) : ∀ t : Target, Keeps I (target env t)
  | .identifier i => hI.identifier env i
  | .member m => keeps_member hI env m

theorem keeps_func (hI : Invariant I) (env : Environment) : ∀ f : Func, Keeps I (func env f)
  | .mk .. => (hI.enter env _).bind fun inner => keeps_stmtList hI inner _

theorem keeps_stmtList (hI : Invariant I) (env : Environment) :
    ∀ ss : List Stmt, Keeps I (stmtList env ss)
  | [] => .pure ()
  | s :: rest => (keeps_stmt hI env s).bind fun _ => keeps_stmtList hI env rest

theorem keeps_option (hI : Invariant I) (env : Environment) :
    ∀ e : Option Expr, Keeps I (option env e)
  | none => .pure ()
  | some e => keeps_expr hI env e

theorem keeps_forInit (hI : Invariant I) (env : Environment) :
    ∀ init : ForInit, Keeps I (forInit env init)
  | .nothing => .pure ()
  | .declaration _ ds => keeps_declaratorList hI env ds
  | .expression e => keeps_expr hI env e

theorem keeps_forInTarget (hI : Invariant I) (env : Environment) :
    ∀ left : ForInTarget, Keeps I (forInTarget env left)
  | .declaration i => hI.identifier env i
  | .target t => keeps_target hI env t

theorem keeps_declaratorList (hI : Invariant I) (env : Environment) :
    ∀ ds : List Declarator, Keeps I (declaratorList env ds)
  | [] => .pure ()
  | .mk _ name none :: rest =>
    (hI.identifier env name).bind fun _ => keeps_declaratorList hI env rest
  | .mk _ name (some init) :: rest => (hI.identifier env name).bind fun _ =>
    (keeps_expr hI env init).bind fun _ => keeps_declaratorList hI env rest

theorem keeps_clauseList (hI : Invariant I) (env : Environment) :
    ∀ cs : List SwitchClause, Keeps I (clauseList env cs)
  | [] => .pure ()
  | .mk _ none body :: rest =>
    (keeps_stmtList hI env body).bind fun _ => keeps_clauseList hI env rest
  | .mk _ (some test) body :: rest => (keeps_expr hI env test).bind fun _ =>
    (keeps_stmtList hI env body).bind fun _ => keeps_clauseList hI env rest

theorem keeps_block (hI : Invariant I) (env : Environment) : ∀ b : Block, Keeps I (block env b)
  | .mk _ body => keeps_stmtList hI env body

theorem keeps_handler (hI : Invariant I) (env : Environment) :
    ∀ h : Handler, Keeps I (handler env h)
  | .mk _ param body => (hI.enterCatch env param).bind fun inner => keeps_block hI inner body

/-- An invariant is kept by what a statement consists of. -/
theorem keeps_stmt (hI : Invariant I) (env : Environment) : ∀ s : Stmt, Keeps I (stmt env s)
  | .expression _ e => keeps_expr hI env e
  | .block b => keeps_block hI env b
  | .empty _ | .debugger _ | .brk .. | .cont .. | .ret _ none => .pure ()
  | .ret _ (some e) => keeps_expr hI env e
  | .labeled _ _ body => keeps_stmt hI env body
  | .conditional _ test consequent none =>
    (keeps_expr hI env test).bind fun _ => keeps_stmt hI env consequent
  | .conditional _ test consequent (some alternate) =>
    (keeps_expr hI env test).bind fun _ => (keeps_stmt hI env consequent).bind fun _ =>
      keeps_stmt hI env alternate
  | .switch _ discriminant clauses =>
    (keeps_expr hI env discriminant).bind fun _ => keeps_clauseList hI env clauses
  | .throw _ e => keeps_expr hI env e
  | .tryCatch _ b none none => (keeps_block hI env b).bind fun _ => .pure ()
  | .tryCatch _ b none (some f) => (keeps_block hI env b).bind fun _ => keeps_block hI env f
  | .tryCatch _ b (some h) none =>
    (keeps_block hI env b).bind fun _ => (keeps_handler hI env h).bind fun _ => .pure ()
  | .tryCatch _ b (some h) (some f) =>
    (keeps_block hI env b).bind fun _ => (keeps_handler hI env h).bind fun _ => keeps_block hI env f
  | .while _ test body => (keeps_expr hI env test).bind fun _ => keeps_stmt hI env body
  | .doWhile _ test body => (keeps_expr hI env test).bind fun _ => keeps_stmt hI env body
  | .for _ init test update body => by
    rw [stmt_for]
    exact (keeps_forInit hI env init).bind fun _ => (keeps_option hI env test).bind fun _ =>
      (keeps_option hI env update).bind fun _ => keeps_stmt hI env body
  | .forIn _ left right body => by
    rw [stmt_forIn]
    exact (keeps_forInTarget hI env left).bind fun _ => (keeps_expr hI env right).bind fun _ =>
      keeps_stmt hI env body
  | .with _ id object body => by
    rw [stmt_with]
    refine (Keeps.isStrict env).bind fun strict => ?_
    split
    · exact .throw_bind _
    · exact (keeps_expr hI env object).bind fun _ => (hI.enterWith env id).bind fun inner =>
        keeps_stmt hI inner body
  | .declaration _ ds => keeps_declaratorList hI env ds
  | .function f => keeps_func hI (hoistedEnvironment env) f

end

end Invariant

end Resolve

/-! ### Storage -/

/-- Tables that agree on what is declared, and under which names. -/
structure Analysis.SameNames (a b : Analysis) : Prop where
  layouts : b.layouts = a.layouts
  size : b.vars.size = a.vars.size
  bodies_size : b.bodies.size = a.bodies.size
  name : ∀ v, (b.var v).name = (a.var v).name
  storageName : ∀ v, (b.var v).storageName = (a.var v).storageName
  kind : ∀ v, (b.var v).kind = (a.var v).kind
  owner : ∀ v, (b.var v).body = (a.var v).body
  declared : ∀ id, (b.body id).declared = (a.body id).declared

namespace Analysis.SameNames

/-- A change of a body that keeps what it declares. -/
theorem modifyBody (a : Analysis) (id : FunctionId) {f : BodyInfo → BodyInfo}
    (hf : ∀ b, (f b).declared = b.declared) :
    a.SameNames { a with bodies := a.bodies.modify id f } := by
  refine ⟨rfl, rfl, by simp, fun _ => rfl, fun _ => rfl, fun _ => rfl, fun _ => rfl, fun i => ?_⟩
  rcases eq_or_ne i id with rfl | hne
  · rcases Nat.lt_or_ge i a.bodies.size with hlt | hge
    · rw [a.body_modify_self hlt, hf]
    · rw [a.body_modify_of_size_le hge]
  · rw [a.body_modify_of_ne hne]

/-- A change of a variable that keeps its names, its kind and its body. -/
theorem modifyVariable (a : Analysis) (v : VariableId) {f : Variable → Variable}
    (hf : ∀ x, (f x).name = x.name ∧ (f x).storageName = x.storageName ∧ (f x).kind = x.kind ∧
      (f x).body = x.body) : a.SameNames { a with vars := a.vars.modify v f } := by
  have hvar (w : VariableId) : Analysis.var { a with vars := a.vars.modify v f } w = a.var w ∨
      Analysis.var { a with vars := a.vars.modify v f } w = f (a.var w) := by
    rcases eq_or_ne w v with rfl | hne
    · rcases Nat.lt_or_ge w a.vars.size with hlt | hge
      · exact .inr (a.var_modify_self hlt f)
      · refine .inl ?_
        unfold Analysis.var
        rw [Array.getElem?_eq_none (by simpa using hge), Array.getElem?_eq_none hge]
    · exact .inl (a.var_modify_of_ne hne f)
  refine ⟨rfl, by simp, rfl, fun w => ?_, fun w => ?_, fun w => ?_, fun w => ?_, fun _ => rfl⟩ <;>
    rcases hvar w with h | h <;> rw [h] <;> simp [hf]

theorem setReference (a : Analysis) (node : NodeId) (v : VariableId) :
    a.SameNames { a with references := a.references.setIfInBounds node (some v) } :=
  ⟨rfl, rfl, rfl, fun _ => rfl, fun _ => rfl, fun _ => rfl, fun _ => rfl, fun _ => rfl⟩

theorem setWithVariable (a : Analysis) (node : NodeId) (v : VariableId) :
    a.SameNames { a with withVariables := a.withVariables.setIfInBounds node (some v) } :=
  ⟨rfl, rfl, rfl, fun _ => rfl, fun _ => rfl, fun _ => rfl, fun _ => rfl, fun _ => rfl⟩

end Analysis.SameNames

/-- Some variables have a number, and the names they are stored under are made up with it.  All
others are stored under their own names, and a local variable among them is the one that its body
declares. -/
structure Analysis.Stored (a : Analysis) (number : VariableId → Option Nat) : Prop where
  layouts : a.layouts = #[]
  numbered : ∀ v n, number v = some n → v < a.vars.size ∧ MadeUp n (a.var v).storageName
  injective : ∀ v w n, number v = some n → number w = some n → v = w
  own : ∀ v < a.vars.size, number v = none → (a.var v).storageName = (a.var v).name
  declared : ∀ v < a.vars.size, number v = none → (a.var v).kind = .local →
    (a.var v).body < a.bodies.size → (a.body (a.var v).body).declared.get? (a.var v).name = some v

namespace Analysis.Stored

variable {a b : Analysis} {number : VariableId → Option Nat}

theorem of_sameNames (h : a.Stored number) (hab : a.SameNames b) : b.Stored number where
  layouts := hab.layouts.trans h.layouts
  numbered v n hv := by
    rw [hab.size, hab.storageName]
    exact h.numbered v n hv
  injective := h.injective
  own v hv hnone := by
    rw [hab.storageName, hab.name]
    exact h.own v (hab.size ▸ hv) hnone
  declared v hv hnone hkind hbody := by
    rw [hab.declared, hab.name, hab.owner]
    rw [hab.owner, hab.bodies_size] at hbody
    exact h.declared v (hab.size ▸ hv) hnone (hab.kind v ▸ hkind) hbody

/-- A variable that is stored under its own name, and that its body declares if it is local. -/
theorem push (h : a.Stored number) {x : Variable} (hown : x.storageName = x.name)
    (hdeclared : x.kind = .local → x.body < a.bodies.size →
      (a.body x.body).declared.get? x.name = some a.vars.size) :
    Analysis.Stored { a with vars := a.vars.push x } number := by
  have hold {v : VariableId} (hv : v < (a.vars.push x).size) :
      v = a.vars.size ∧ Analysis.var { a with vars := a.vars.push x } v = x ∨
        v < a.vars.size ∧ Analysis.var { a with vars := a.vars.push x } v = a.var v := by
    rw [Array.size_push] at hv
    rcases Nat.lt_succ_iff_lt_or_eq.mp hv with hlt | rfl
    · exact .inr ⟨hlt, a.var_push_of_lt hlt x⟩
    · exact .inl ⟨rfl, a.var_push_self x⟩
  refine ⟨h.layouts, fun v n hv => ?_, h.injective, fun v hv hnone => ?_,
    fun v hv hnone hkind hbody => ?_⟩
  · obtain ⟨hlt, hname⟩ := h.numbered v n hv
    rw [a.var_push_of_lt hlt]
    exact ⟨by simpa using Nat.lt_succ_of_lt hlt, hname⟩
  · rcases hold hv with ⟨-, heq⟩ | ⟨hlt, heq⟩ <;> rw [heq]
    · exact hown
    · exact h.own v hlt hnone
  · rcases hold hv with ⟨rfl, heq⟩ | ⟨hlt, heq⟩ <;> rw [heq] at hkind hbody ⊢
    · exact hdeclared hkind hbody
    · exact h.declared v hlt hnone hkind hbody

/-- A new name of a body. -/
theorem declare (h : a.Stored number) {id : FunctionId} {name : String} {kind : VariableKind}
    (hnone : ¬ (a.body id).declared.contains name = true) :
    (a.declare id name kind).Stored number := by
  have hget (i : FunctionId) (y : String) (hi : id < a.bodies.size) : (Analysis.body { a with
      bodies := a.bodies.modify id fun b =>
        { b with declared := b.declared.insert name a.vars.size } }
          i).declared.get? y = if i = id ∧ y = name then some a.vars.size
            else (a.body i).declared.get? y := by
    rcases eq_or_ne i id with rfl | hne
    · rw [a.body_modify_self hi]
      simpa using NameTable.get?_insert _ hnone a.vars.size y
    · rw [a.body_modify_of_ne hne, if_neg fun h => hne h.1]
  have hinsert : Analysis.Stored { a with
      bodies := a.bodies.modify id fun b =>
        { b with declared := b.declared.insert name a.vars.size } }
          number := by
    refine { h with declared := fun v hv hnumber hkind hbody => ?_ }
    have hbody : (a.var v).body < a.bodies.size := by simpa using hbody
    have hv := h.declared v hv hnumber hkind hbody
    change (Analysis.body _ (a.var v).body).declared.get? (a.var v).name = some v
    rcases Nat.lt_or_ge id a.bodies.size with hlt | hge
    · rw [hget _ _ hlt, if_neg, hv]
      rintro ⟨hid, hname⟩
      rw [hid, hname] at hv
      exact hnone ((NameTable.contains_iff _).mpr ⟨v, hv⟩)
    · rwa [a.body_modify_of_ne (Nat.ne_of_lt (hbody.trans_le hge))]
  refine hinsert.push rfl fun _ hbody => ?_
  have hbody : id < a.bodies.size := by simpa [Variable.plain] using hbody
  exact (hget id name hbody).trans (if_pos ⟨rfl, rfl⟩)

/-- A variable with the next number. -/
theorem pushNumbered (h : a.Stored number) {n : Nat} (hn : ∀ v k, number v = some k → k < n)
    {x : Variable} (hx : MadeUp n x.storageName) : Analysis.Stored { a with vars := a.vars.push x }
      (Function.update number a.vars.size (some n)) := by
  have hsize : number a.vars.size = none := by
    cases hv : number a.vars.size with
    | none => rfl
    | some k => exact absurd (h.numbered _ k hv).1 (Nat.lt_irrefl _)
  have hold {v : VariableId} (hv : v < (a.vars.push x).size)
      (hnone : Function.update number a.vars.size (some n) v = none) :
        v < a.vars.size ∧ number v = none := by
    rw [Array.size_push] at hv
    rcases Nat.lt_succ_iff_lt_or_eq.mp hv with hlt | rfl
    · rw [Function.update_of_ne (Nat.ne_of_lt hlt)] at hnone
      exact ⟨hlt, hnone⟩
    · rw [Function.update_self] at hnone
      cases hnone
  refine ⟨h.layouts, fun v k hv => ?_, fun v w k hv hw => ?_, fun v hv hnone => ?_,
    fun v hv hnone hkind hbody => ?_⟩
  · rcases eq_or_ne v a.vars.size with rfl | hne
    · rw [Function.update_self] at hv
      cases hv
      rw [a.var_push_self]
      exact ⟨by simp, hx⟩
    · rw [Function.update_of_ne hne] at hv
      obtain ⟨hlt, hname⟩ := h.numbered v k hv
      rw [a.var_push_of_lt hlt]
      exact ⟨by simpa using Nat.lt_succ_of_lt hlt, hname⟩
  · by_cases hv' : v = a.vars.size <;> by_cases hw' : w = a.vars.size
    · exact hv'.trans hw'.symm
    · rw [hv', Function.update_self] at hv
      rw [Function.update_of_ne hw'] at hw
      cases hv
      exact absurd (hn w n hw) (Nat.lt_irrefl _)
    · rw [hw', Function.update_self] at hw
      rw [Function.update_of_ne hv'] at hv
      cases hw
      exact absurd (hn v n hv) (Nat.lt_irrefl _)
    · rw [Function.update_of_ne hv'] at hv
      rw [Function.update_of_ne hw'] at hw
      exact h.injective v w k hv hw
  · obtain ⟨hlt, hnone⟩ := hold hv hnone
    rw [a.var_push_of_lt hlt]
    exact h.own v hlt hnone
  · obtain ⟨hlt, hnone⟩ := hold hv hnone
    rw [a.var_push_of_lt hlt] at hkind hbody ⊢
    exact h.declared v hlt hnone hkind hbody

end Analysis.Stored

/-- The variables are stored apart from each other, under numbers that have been given out. -/
def Resolving.Stored (s : Resolving) : Prop :=
  ∃ number, s.analysis.Stored number ∧ ∀ v n, number v = some n → n ≤ s.madeUp

namespace Resolve

theorem keeps_modifyTables {f : Analysis → Analysis} (hf : ∀ a : Analysis, a.SameNames (f a)) :
    Keeps Resolving.Stored (modifyTables f) := by
  rintro s r t h ⟨number, hs, hn⟩
  cases h
  exact ⟨number, hs.of_sameNames (hf _), hn⟩

theorem keeps_modifyBody (id : FunctionId) {f : BodyInfo → BodyInfo}
    (hf : ∀ b, (f b).declared = b.declared) : Keeps Resolving.Stored (modifyBody id f) :=
  keeps_modifyTables fun a => .modifyBody a id hf

theorem keeps_modifyVariable (v : VariableId) {f : Variable → Variable}
    (hf : ∀ x, (f x).name = x.name ∧ (f x).storageName = x.storageName ∧ (f x).kind = x.kind ∧
      (f x).body = x.body) : Keeps Resolving.Stored (modifyVariable v f) :=
  keeps_modifyTables fun a => .modifyVariable a v hf

theorem keeps_setReference (node : NodeId) (v : VariableId) :
    Keeps Resolving.Stored (setReference node v) :=
  keeps_modifyTables fun a => .setReference a node v

theorem keeps_setWithVariable (node : NodeId) (v : VariableId) :
    Keeps Resolving.Stored (setWithVariable node v) :=
  keeps_modifyTables fun a => .setWithVariable a node v

/-- A new name is declared. -/
theorem stored_declare {s t : Resolving} {id : FunctionId} {name : String} {kind : VariableKind}
    {v : VariableId} (hs : s.Stored) (hnone : ¬ (s.analysis.body id).declared.contains name = true)
    (h : (declare id name kind).run s = .ok (v, t)) : t.Stored := by
  obtain ⟨number, hs, hn⟩ := hs
  cases h
  exact ⟨number, hs.declare hnone, hn⟩

theorem keeps_declareOnce (id : FunctionId) (name : String) (kind : VariableKind) :
    Keeps Resolving.Stored (declareOnce id name kind) := by
  refine .tables fun s hs v t h => ?_
  split at h
  · cases h
    exact hs
  · rename_i hnone
    refine stored_declare hs ?_ h
    rw [NameTable.contains_iff, hnone]
    exact fun ⟨_, hv⟩ => nomatch hv

theorem keeps_capture (v : VariableId) : Keeps Resolving.Stored (capture v) := by
  refine .tables fun s hs _ t h => ?_
  dsimp only at h
  split at h
  · exact keeps_modifyBody _ (fun b => by split <;> rfl) h hs
  · cases h
    exact hs

theorem keeps_captureForeign (body : FunctionId) : ∀ ws : List VariableId,
    Keeps Resolving.Stored (captureForeign body ws)
  | [] => .pure ()
  | w :: rest => by
    unfold captureForeign
    refine .tables fun s hs _ t h => ?_
    dsimp only at h
    split at h
    · exact (keeps_capture w).bind (fun _ => keeps_captureForeign body rest) h hs
    · exact keeps_captureForeign body rest h hs

theorem keeps_lookedUp (name : String) : ∀ found, Keeps Resolving.Stored (lookedUp name found)
  | none => keeps_declareOnce 0 name .global
  | some (v, true) => (keeps_capture v).bind fun _ => .pure v
  | some (v, false) => .pure v

theorem keeps_resolve (env : Environment) (name : String) :
    Keeps Resolving.Stored (resolve env name) := by
  refine .tables fun s hs v t h => ?_
  refine (keeps_lookedUp name _).bind (fun target => ?_) h hs
  dsimp only
  split
  · exact .pure target
  · refine (keeps_captureForeign _ _).bind fun _ => .tables fun s hs v t h => ?_
    obtain ⟨number, hs, hn⟩ := hs
    cases h
    exact ⟨number, hs.push rfl nofun, hn⟩

theorem keeps_identifier (env : Environment) (i : Identifier) :
    Keeps Resolving.Stored (identifier env i) :=
  (keeps_resolve env i.name).bind fun v => keeps_setReference i.id v

theorem keeps_declareParameters (id : FunctionId) : ∀ (position : Nat) (is : List Identifier),
    Keeps Resolving.Stored (declareParameters id position is)
  | _, [] => .pure ()
  | position, p :: rest => by
    unfold declareParameters
    refine (keeps_declareOnce id p.name .parameter).bind fun v => ?_
    refine (keeps_modifyVariable v fun _ => by exact ⟨rfl, rfl, rfl, rfl⟩).bind fun _ => ?_
    refine (keeps_modifyBody id fun _ => by rfl).bind fun _ => ?_
    exact (keeps_setReference p.id v).bind fun _ => keeps_declareParameters id (position + 1) rest

theorem keeps_declareFunctions (id : FunctionId) (kind : VariableKind) : ∀ fs : List Func,
    Keeps Resolving.Stored (declareFunctions id kind fs)
  | [] => .pure ()
  | f :: rest => by
    unfold declareFunctions
    refine (keeps_declareOnce id f.name kind).bind fun v => ?_
    split
    · refine (keeps_modifyVariable v fun _ => by exact ⟨rfl, rfl, rfl, rfl⟩).bind fun _ => ?_
      exact (keeps_setReference _ v).bind fun _ => keeps_declareFunctions id kind rest
    · exact (Keeps.pure ()).bind fun _ => keeps_declareFunctions id kind rest

theorem keeps_declareVariables (id : FunctionId) (kind : VariableKind) : ∀ names : List String,
    Keeps Resolving.Stored (declareVariables id kind names)
  | [] => .pure ()
  | name :: rest =>
    (keeps_declareOnce id name kind).bind fun _ => keeps_declareVariables id kind rest

theorem keeps_declareSelf (id : FunctionId) (name : Identifier) :
    Keeps Resolving.Stored (declareSelf id name) := by
  refine .tables fun s hs _ t h => ?_
  split at h
  · rename_i hnone
    obtain ⟨v, u, hv, h⟩ := run_bind_eq_ok h
    have hu := stored_declare hs (by simpa using hnone) hv
    refine Keeps.bind (keeps_modifyVariable v fun _ => by exact ⟨rfl, rfl, rfl, rfl⟩)
      (fun _ => ?_) h hu
    exact (keeps_modifyBody id fun _ => by rfl).bind fun _ => keeps_setReference name.id v
  · cases h
    exact hs

theorem keeps_declareBody (f : Func) : Keeps Resolving.Stored (declareBody f) := by
  have hrest : Keeps Resolving.Stored (declareLocals f) := by
    refine (keeps_declareVariables f.id .local _).bind fun _ => ?_
    refine (keeps_declareFunctions f.id .local _).bind fun _ => ?_
    split
    · exact keeps_declareSelf f.id _
    · exact .pure ()
  unfold declareBody
  dsimp only
  refine (keeps_declareParameters f.id 0 f.params).bind fun _ => .tables fun s hs _ t h => ?_
  split at h
  · rename_i hnone
    obtain ⟨v, u, hv, h⟩ := run_bind_eq_ok h
    have hu := stored_declare hs (by simpa using hnone) hv
    exact Keeps.bind (keeps_modifyBody f.id fun _ => by rfl) (fun _ => hrest) h hu
  · exact hrest h hs

theorem keeps_enter (env : Environment) (f : Func) : Keeps Resolving.Stored (enter env f) := by
  have hrest (strict : Bool) : Keeps Resolving.Stored (do
      modifyBody f.id fun b => { b with parent := some (current env), strict, name := f.name }
      declareBody f
      return ⟨f.id, []⟩ :: env) :=
    (keeps_modifyBody f.id fun _ => by rfl).bind fun _ =>
      (keeps_declareBody f).bind fun _ => .pure _
  unfold enter
  refine (Keeps.isStrict env).bind fun strict => ?_
  dsimp only
  split
  · split
    · exact (Keeps.checkName _ _).bind fun _ => (Keeps.checkParameters _ _).bind fun _ => hrest _
    · exact (Keeps.pure ()).bind fun _ => (Keeps.checkParameters _ _).bind fun _ => hrest _
  · exact hrest _

/-- A variable is made up with a new number. -/
theorem keeps_makeUp (env : Environment) {x : Nat → Variable} (hx : ∀ n, MadeUp n (x n).storageName)
    {α : Type} {g : VariableId → Resolve α} (hg : ∀ v, Keeps Resolving.Stored (g v)) :
    Keeps Resolving.Stored (freshNumber >>= fun n => addSynthetic env (x n) >>= g) := by
  intro s q t h hs
  obtain ⟨n, s₁, hfresh, h⟩ := run_bind_eq_ok h
  obtain ⟨v, s₂, hadd, h⟩ := run_bind_eq_ok h
  refine hg v h ?_
  obtain ⟨number, hs, hn⟩ := hs
  cases hfresh
  cases hadd
  have hpush := hs.pushNumbered (fun v k hv => Nat.lt_succ_of_le (hn v k hv)) (hx (s.madeUp + 1))
  refine ⟨_, hpush.of_sameNames (.modifyBody _ (current env) fun _ => by rfl), fun v k hv => ?_⟩
  rcases eq_or_ne v s.analysis.vars.size with rfl | hne
  · rw [Function.update_self] at hv
    cases hv
    exact le_rfl
  · rw [Function.update_of_ne hne] at hv
    exact Nat.le_succ_of_le (hn v k hv)

theorem keeps_enterCatch (env : Environment) (param : Identifier) :
    Keeps Resolving.Stored (enterCatch env param) := by
  refine (Keeps.isStrict env).bind fun strict =>
    (Keeps.checkName strict param.name).bind fun _ => ?_
  exact keeps_makeUp env (fun _ => .catch_) fun v =>
    (keeps_setReference param.id v).bind fun _ => .pure _

theorem keeps_enterWith (env : Environment) (id : NodeId) :
    Keeps Resolving.Stored (enterWith env id) :=
  keeps_makeUp env (fun _ => .with_) fun v => (keeps_setWithVariable id v).bind fun _ => .pure _

/-- Resolution stores all variables apart from each other. -/
theorem invariant_stored : Invariant Resolving.Stored :=
  ⟨keeps_identifier, keeps_enter, keeps_enterCatch, keeps_enterWith⟩

/-- The variables of a script are stored apart from each other. -/
theorem stored_of_program {strict : Bool} {p : Program} {a : Analysis}
    (h : program strict p = .ok a) : ∃ number, a.Stored number := by
  unfold program at h
  split at h
  · rename_i s hrun
    cases h
    have hscript : Keeps Resolving.Stored (script strict p) :=
      (keeps_modifyBody 0 fun _ => by rfl).bind fun _ =>
        (keeps_declareVariables 0 .global _).bind fun _ =>
        (keeps_declareFunctions 0 .global _).bind fun _ => invariant_stored.keeps_stmtList _ p.body
    have hinitial : (Analysis.initial p.functionCount p.nodeCount).Stored fun _ => none := by
      refine ⟨rfl, nofun, nofun, fun v hv _ => ?_, fun v hv _ hkind => ?_⟩ <;>
        obtain rfl := Nat.lt_one_iff.mp hv
      · rfl
      · cases hkind
    obtain ⟨number, hs, -⟩ := hscript hrun ⟨_, hinitial, nofun⟩
    exact ⟨number, hs⟩
  · cases h

end Resolve

end ScriptEngine
