import ScriptEngine.Analysis.Variable
import ScriptEngine.Code.Representation
import Mathlib.Data.Set.Insert

/-!
# Typing rules

When the types of the variables can be relied upon: a variable of a concrete type is read only after
it was written in the same body, and all that is written to it is of its type.  A write counts for
what follows only if it is a statement of its own at the top of a body, for then nothing can leave
it out.

## Main definitions

* `ValueType.IsConcrete` : the types with a representation of their own.
* `Value.Fits`, `Rep.Holds` : a value is of a type, and can be held in a representation as it is.
* `Expr.type` : the type of an expression, given those of the variables.
* `Stmt.after` : the variables that were written after a statement.
* `TypeSite` : a place at which types matter, as a read or a write of a variable.
* `Expr.typeSites`, `Stmt.typeSites` : the places in an expression or statement.
-/

namespace ScriptEngine

/-- The types with a representation of their own. -/
def ValueType.IsConcrete (t : ValueType) : Prop :=
  Rep.ofValueType t ≠ .boxed

instance : DecidablePred ValueType.IsConcrete :=
  fun t => inferInstanceAs (Decidable (Rep.ofValueType t ≠ .boxed))

/-- A value is of a type; all values are of a type that is not concrete. -/
def Value.Fits (v : Value) : ValueType → Prop
  | .double => ∃ x, v = .number x
  | .boolean => ∃ b, v = .boolean b
  | .string => ∃ s, v = .string s
  | .unset | .unknown | .object => True

theorem Value.fits_of_not_concrete {v : Value} {t : ValueType} (h : ¬ t.IsConcrete) : v.Fits t := by
  cases t with
  | double | boolean | string => exact absurd (fun h => by cases h) h
  | unset | unknown | object => trivial

theorem Rep.fits_box {t : ValueType} (x : (Rep.ofValueType t).Carrier) :
    ((Rep.ofValueType t).box x).Fits t := by
  cases t with
  | double => exact ⟨x, rfl⟩
  | boolean => exact ⟨x, rfl⟩
  | string => exact ⟨x, rfl⟩
  | unset | unknown | object => trivial

/-- A representation can hold a value as it is. -/
def Rep.Holds (ρ : Rep) (v : Value) : Prop :=
  ρ.box (ρ.ofPrimitive v) = v

/-- The representation of a type holds the values of the type. -/
theorem Value.Fits.holds {v : Value} {t : ValueType} (h : v.Fits t) :
    (Rep.ofValueType t).Holds v := by
  cases t with
  | double => obtain ⟨x, rfl⟩ := h; rfl
  | boolean => obtain ⟨b, rfl⟩ := h; rfl
  | string => obtain ⟨s, rfl⟩ := h; rfl
  | unset | unknown | object => rfl

variable (a : Analysis)

namespace Analysis

/-- The type of the variable of an identifier occurrence. -/
def nameType (i : Identifier) : ValueType :=
  match (a.reference? i).bind fun v => a.vars[v]? with
  | some x => x.valueType
  | none => .unknown

/-- Where a variable of a concrete type may be used: it lives in a slot and can be assigned, and it
neither holds the object of a `with` statement nor is hidden by one. -/
structure Guarded (i : Identifier) : Prop where
  slot : ∀ v, a.reference? i = some v → (a.var v).valueType.IsConcrete →
    (a.var v).kind = .local ∧ (a.var v).field = none ∧ (a.var v).immutable = false
  scopes : ∀ v, a.reference? i = some v → (a.var v).kind = .withScope → ∀ w ∈ (a.var v).withChain,
    ¬ (a.var w.1).valueType.IsConcrete
  fallback : ∀ v target, a.reference? i = some v → (a.var v).fallback = some target →
    ¬ (a.var target).valueType.IsConcrete

/-- A variable of a concrete type is read only if it was written. -/
structure Reads (W : Set VariableId) (i : Identifier) : Prop where
  guarded : a.Guarded i
  written : ∀ v, a.reference? i = some v → (a.var v).valueType.IsConcrete → v ∈ W

/-- What is written to a variable leaves its type as it is, and is of its type if that is
concrete. -/
structure Writes (i : Identifier) (t : ValueType) : Prop where
  guarded : a.Guarded i
  merges : ∀ v x, a.reference? i = some v → a.vars[v]? = some x → x.valueType.merge t = x.valueType
  type : ∀ v, a.reference? i = some v → (a.var v).valueType.IsConcrete → t = (a.var v).valueType

/-- A name that gets its value in another way than by an assignment is not of a concrete type. -/
def Receives (i : Identifier) : Prop :=
  a.Guarded i ∧ ¬ (a.nameType i).IsConcrete

/-- The variables that a call of a function fills are not of concrete types. -/
structure ReceivesOnCall (id : FunctionId) : Prop where
  arguments : ∀ v, (a.body id).arguments = some v → ¬ (a.var v).valueType.IsConcrete
  selfBinding : ∀ v, (a.body id).selfBinding = some v →
    ¬ (a.var v).valueType.IsConcrete ∧ (a.var v).kind = .local

/-- The variables that were written after a write of a name; `top` says whether it counts. -/
def written (top : Bool) (W : Set VariableId) (i : Identifier) : Set VariableId :=
  {v | v ∈ W ∨ top = true ∧ a.reference? i = some v}

end Analysis

/-! ### Types of expressions -/

mutual

/-- The type of an expression. -/
def Expr.type : Expr → ValueType
  | .literal _ value => value.valueType
  | .identifier i => a.nameType i
  | .this _ => .unknown
  | .array .. => .object
  | .object .. => .object
  | .function _ => .object
  | .unary _ op _ => op.resultType
  | .update .. => .double
  | .binary _ op left right => op.resultType left.type right.type
  | .logical _ _ left right => left.type.join right.type
  | .assign _ .plain _ value => value.type
  | .assign _ (.compound op) (.identifier i) value => op.resultType (a.nameType i) value.type
  | .assign _ (.compound op) (.member _) value => op.resultType .unknown value.type
  | .conditional _ _ consequent alternate => consequent.type.join alternate.type
  | .call .. => .unknown
  | .construct .. => .object
  | .sequence _ expressions => lastType .unknown expressions
  | .member _ => .unknown

/-- The type of the last one of several expressions. -/
def lastType (last : ValueType) : List Expr → ValueType
  | [] => last
  | e :: rest => lastType e.type rest

end

/-! ### Writes that always happen -/

/-- The variables that were written after a declaration. -/
def declaratorsAfter (top : Bool) (W : Set VariableId) : List Declarator → Set VariableId
  | [] => W
  | .mk _ _ none :: rest => declaratorsAfter top W rest
  | .mk _ name (some _) :: rest => declaratorsAfter top (a.written top W name) rest

/-- The variables that were written after an expression statement. -/
def Expr.after (top : Bool) (W : Set VariableId) : Expr → Set VariableId
  | .assign _ .plain (.identifier i) _ => a.written top W i
  | _ => W

/-- The variables that were written after the first part of the head of a `for` loop. -/
def ForInit.after (top : Bool) (W : Set VariableId) : ForInit → Set VariableId
  | .nothing => W
  | .declaration _ ds => declaratorsAfter a top W ds
  | .expression e => e.after a top W

/-- The variables that were written after a statement. -/
def Stmt.after (top : Bool) (W : Set VariableId) : Stmt → Set VariableId
  | .expression _ e => e.after a top W
  | .declaration _ ds => declaratorsAfter a top W ds
  | .for _ init _ _ _ => init.after a top W
  | _ => W

theorem Analysis.written_false (W : Set VariableId) (i : Identifier) : a.written false W i = W := by
  ext v
  simp [Analysis.written]

theorem declaratorsAfter_false (W : Set VariableId) (ds : List Declarator) :
    declaratorsAfter a false W ds = W := by
  fun_induction declaratorsAfter a false W ds with
  | case1 => rfl
  | case2 _ _ _ _ ih => exact ih
  | case3 _ _ _ _ _ ih => rw [ih, a.written_false]

theorem Expr.after_false (W : Set VariableId) (e : Expr) : e.after a false W = W := by
  unfold Expr.after
  split
  · exact a.written_false W _
  · rfl

theorem ForInit.after_false (W : Set VariableId) (init : ForInit) :
    init.after a false W = W := by
  cases init with
  | nothing => rfl
  | declaration span ds => exact declaratorsAfter_false a W ds
  | expression e => exact e.after_false a W

theorem Stmt.after_false (W : Set VariableId) (s : Stmt) : s.after a false W = W := by
  unfold Stmt.after
  split
  · exact Expr.after_false a W _
  · exact declaratorsAfter_false a W _
  · exact ForInit.after_false a W _
  · rfl

/-- The variables that were written after statements. -/
def stmtsAfter (top : Bool) (W : Set VariableId) : List Stmt → Set VariableId
  | [] => W
  | s :: rest => stmtsAfter top (s.after a top W) rest

theorem stmtsAfter_false (W : Set VariableId) (ss : List Stmt) :
    stmtsAfter a false W ss = W := by
  induction ss generalizing W with
  | nil => rfl
  | cons s rest ih => rw [stmtsAfter, ih, Stmt.after_false]

/-! ### Sites -/

/-- A place of a script at which the types of variables matter. -/
inductive TypeSite where
  /-- A name is read, after the variables in `W` were written in the same body. -/
  | read (W : Set VariableId) (i : Identifier)
  /-- A value of a type is written to a name. -/
  | write (i : Identifier) (t : ValueType)
  /-- A `catch` clause gives its parameter a value. -/
  | caught (param : Identifier)
  /-- A `with` statement keeps its object. -/
  | held (id : NodeId)
  /-- A function declaration gives its name a value. -/
  | declared (i : Identifier)
  /-- A function gets its arguments and its own name. -/
  | called (id : FunctionId)

mutual

/-- The sites in an expression that follows the writes of the variables in `W`. -/
def Expr.typeSites (W : Set VariableId) : Expr → List TypeSite
  | .literal .. | .this _ => []
  | .identifier i => [.read W i]
  | .array _ elements => elementTypeSites W elements
  | .object _ properties => propertyTypeSites W properties
  | .function f => f.typeSites
  | .unary _ _ argument => argument.typeSites W
  | .update _ _ (.identifier i) _ => [.read W i, .write i .double]
  | .update _ _ (.member m) _ => m.typeSites W
  | .binary _ _ left right => left.typeSites W ++ right.typeSites W
  | .logical _ _ left right => left.typeSites W ++ right.typeSites W
  | .assign _ .plain (.identifier i) value => value.typeSites W ++ [.write i (value.type a)]
  | .assign _ (.compound op) (.identifier i) value =>
    .read W i :: (value.typeSites W ++ [.write i (op.resultType (a.nameType i) (value.type a))])
  | .assign _ _ (.member m) value => m.typeSites W ++ value.typeSites W
  | .conditional _ test consequent alternate =>
    test.typeSites W ++ (consequent.typeSites W ++ alternate.typeSites W)
  | .call _ callee arguments => callee.typeSites W ++ exprTypeSites W arguments
  | .construct _ callee arguments => callee.typeSites W ++ exprTypeSites W arguments
  | .sequence _ expressions => exprTypeSites W expressions
  | .member m => m.typeSites W
termination_by structural x => x

/-- The sites in several expressions. -/
def exprTypeSites (W : Set VariableId) : List Expr → List TypeSite
  | [] => []
  | e :: rest => e.typeSites W ++ exprTypeSites W rest
termination_by structural x => x

/-- The sites in an expression that may be left out. -/
def optionTypeSites (W : Set VariableId) : Option Expr → List TypeSite
  | none => []
  | some e => e.typeSites W
termination_by structural x => x

/-- The sites in the elements of an array. -/
def elementTypeSites (W : Set VariableId) : List (Option Expr) → List TypeSite
  | [] => []
  | e :: rest => optionTypeSites W e ++ elementTypeSites W rest
termination_by structural x => x

/-- The sites in the properties of an object. -/
def propertyTypeSites (W : Set VariableId) : List Property → List TypeSite
  | [] => []
  | .mk _ _ value :: rest => value.typeSites W ++ propertyTypeSites W rest
termination_by structural x => x

/-- The sites in a property reference. -/
def Member.typeSites (W : Set VariableId) : Member → List TypeSite
  | .named _ object _ => object.typeSites W
  | .computed _ object property => object.typeSites W ++ property.typeSites W
termination_by structural x => x

/-- The sites in a function, in which no variable was written when it is entered. -/
def Func.typeSites : Func → List TypeSite
  | .mk _ id _ _ _ _ _ body => .called id :: stmtTypeSites true ∅ body
termination_by structural x => x

/-- The sites in statements; `top` says whether they are those of a body itself. -/
def stmtTypeSites (top : Bool) (W : Set VariableId) : List Stmt → List TypeSite
  | [] => []
  | s :: rest => s.typeSites top W ++ stmtTypeSites top (s.after a top W) rest
termination_by structural x => x

/-- The sites in a declaration. -/
def declaratorTypeSites (top : Bool) (W : Set VariableId) : List Declarator → List TypeSite
  | [] => []
  | .mk _ _ none :: rest => declaratorTypeSites top W rest
  | .mk _ name (some init) :: rest =>
    init.typeSites W ++ .write name (init.type a) :: declaratorTypeSites top
      (a.written top W name) rest
termination_by structural x => x

/-- The sites in the clauses of a `switch`. -/
def clauseTypeSites (W : Set VariableId) : List SwitchClause → List TypeSite
  | [] => []
  | .mk _ test body :: rest =>
    optionTypeSites W test ++ (stmtTypeSites false W body ++ clauseTypeSites W rest)
termination_by structural x => x

/-- The sites in a block. -/
def Block.typeSites (W : Set VariableId) : Block → List TypeSite
  | .mk _ body => stmtTypeSites false W body
termination_by structural x => x

/-- The sites in a `catch` clause. -/
def Handler.typeSites (W : Set VariableId) : Handler → List TypeSite
  | .mk _ param body => .caught param :: body.typeSites W
termination_by structural x => x

/-- The sites in the first part of the head of a `for` loop. -/
def ForInit.typeSites (top : Bool) (W : Set VariableId) : ForInit → List TypeSite
  | .nothing => []
  | .declaration _ ds => declaratorTypeSites top W ds
  | .expression e => e.typeSites W
termination_by structural x => x

/-- The sites in what the keys of a `for`-`in` loop are assigned to. -/
def ForInTarget.typeSites (W : Set VariableId) : ForInTarget → List TypeSite
  | .declaration i => [.write i .string]
  | .target (.identifier i) => [.write i .string]
  | .target (.member m) => m.typeSites W
termination_by structural x => x

/-- The sites in a statement; `top` says whether it is one of a body itself. -/
def Stmt.typeSites (top : Bool) (W : Set VariableId) : Stmt → List TypeSite
  | .empty _ | .debugger _ | .brk .. | .cont .. => []
  | .expression _ e => e.typeSites W
  | .block b => b.typeSites W
  | .ret _ e => optionTypeSites W e
  | .throw _ e => e.typeSites W
  | .labeled _ _ body => body.typeSites false W
  | .conditional _ test consequent none => test.typeSites W ++ consequent.typeSites false W
  | .conditional _ test consequent (some alternate) =>
    test.typeSites W ++ (consequent.typeSites false W ++ alternate.typeSites false W)
  | .switch _ discriminant clauses => discriminant.typeSites W ++ clauseTypeSites W clauses
  | .tryCatch _ b h f =>
    b.typeSites W ++
      ((match h with
        | some h => h.typeSites W
        | none => []) ++
      (match f with
        | some f => f.typeSites W
        | none => []))
  | .while _ test body => test.typeSites W ++ body.typeSites false W
  | .doWhile _ test body => body.typeSites false W ++ test.typeSites W
  | .for _ init test update body =>
    init.typeSites top W ++ (optionTypeSites (init.after a top W) test ++
      (body.typeSites false (init.after a top W) ++ optionTypeSites (init.after a top W) update))
  | .forIn _ left right body => right.typeSites W ++ (left.typeSites W ++ body.typeSites false W)
  | .with _ id object body => .held id :: (object.typeSites W ++ body.typeSites false W)
  | .declaration _ ds => declaratorTypeSites top W ds
  | .function f => f.identifier?.toList.map .declared ++ f.typeSites
termination_by structural x => x

end

end ScriptEngine
