import ScriptEngine.Proofs.Compile.Meaning

/-!
# Tables of operators

An operator is looked up in a table by the static types of its operands: under the types themselves,
then with the left one unknown, then with the right one unknown, and at last with both unknown.  An
operator that is found nowhere works on the values of its operands.  However far the search goes,
the code that it gives computes the operator on the values of the operands, evaluated from left to
right.

## Main definitions

* `BinarySpecializer`, `UnarySpecializer` : the ways to make code for an operator.
* `binaryTable`, `unaryTable` : the entries, in the order in which they are made.
* `searchBinary`, `searchUnary` : the search under keys that become wider.
* `searchedBinary`, `searchedUnary` : the code that the search gives.

## Main statements

* `specializeBinary_eq_searched`, `specializeUnary_eq_searched` : operators are chosen by this
  search.
* `specialized_operators` : the code of an operator does what the operator does with values.
-/

namespace ScriptEngine

/-! ### Binary operators -/

/-- A way to make code for a binary operator. -/
inductive BinarySpecializer where
  | numeric (op : NumericOp)
  | relation (r : Relation)
  | equality (e : Equality)
  | concatenation
  | concatenationWithUnknown
  | membership
  | instanceOf
deriving DecidableEq

/-- The code that a specializer makes for two operands. -/
def BinarySpecializer.build : BinarySpecializer → TypedCode → TypedCode → TypedCode
  | .numeric op, l, r => numericCode op l r
  | .relation rel, l, r => relationCode rel l r
  | .equality e, l, r => equalityCode e l r
  | .concatenation, l, r => ⟨.string, .binary .concatenate (l.inRep .string) (r.inRep .string)⟩
  | .concatenationWithUnknown, l, r =>
    ⟨.string, .binary .concatenateValues (l.inRep .boxed) (r.inRep .boxed)⟩
  | .membership, l, r => ⟨.boolean, .binary .membership (l.inRep .boxed) (r.inRep .boxed)⟩
  | .instanceOf, l, r => ⟨.boolean, .binary .instanceOf (l.inRep .boxed) (r.inRep .boxed)⟩

/-- What an entry of the table is found by. -/
abbrev BinaryKey := BinaryOp × ValueType × ValueType

/-- One entry for each pair of types of a list. -/
def entriesFor (op : BinaryOp) (s : BinarySpecializer) (types : List (ValueType × ValueType)) :
    List (BinaryKey × BinarySpecializer) :=
  types.map fun (l, r) => ((op, l, r), s)

/-- The entries of the operator `+`. -/
def sumEntries : List (BinaryKey × BinarySpecializer) :=
  entriesFor .add (.numeric .add)
      [(.double, .double), (.double, .boolean), (.boolean, .double), (.boolean, .boolean)] ++
    entriesFor .add .concatenation
      [(.string, .double), (.double, .string), (.string, .boolean), (.boolean, .string),
       (.string, .string), (.string, .string)] ++
    entriesFor .add .concatenationWithUnknown [(.string, .unknown), (.unknown, .string)]

/-- The table of binary operators. -/
def binaryTable : List (BinaryKey × BinarySpecializer) :=
  sumEntries ++
    [(BinaryOp.subtract, NumericOp.subtract), (.multiply, .multiply), (.divide, .divide),
      (.modulo, .modulo), (.leftShift, .leftShift), (.rightShift, .rightShift),
      (.unsignedRightShift, .unsignedRightShift), (.bitwiseOr, .bitOr), (.bitwiseXor, .bitXor),
      (.bitwiseAnd, .bitAnd)].flatMap (fun (op, n) =>
        entriesFor op (.numeric n) [(.double, .double), (.unknown, .unknown)]) ++
    [(BinaryOp.lessThan, Relation.lessThan), (.lessThanEqual, .lessThanEqual),
      (.greaterThan, .greaterThan),
        (.greaterThanEqual, .greaterThanEqual)].flatMap (fun (op, rel) =>
        entriesFor op (.relation rel)
          [(.double, .double), (.string, .string), (.unknown, .unknown)]) ++
    [(BinaryOp.strictlyEqual, Equality.mk true false), (.strictlyUnequal, ⟨true, true⟩),
      (.looselyEqual, ⟨false, false⟩), (.looselyUnequal, ⟨false, true⟩)].flatMap (fun (op, e) =>
        entriesFor op (.equality e)
          [(.double, .double), (.boolean, .boolean), (.string, .string), (.unknown, .unknown)]) ++
    entriesFor .in_ .membership [(.unknown, .unknown)] ++
    entriesFor .instanceOf .instanceOf [(.unknown, .unknown)]

/-- The keys of an operator for operands of given types, the most specific one first. -/
def binaryKeys (op : BinaryOp) (l r : ValueType) : List BinaryKey :=
  [(op, l, r), (op, .unknown, r), (op, l, .unknown), (op, .unknown, .unknown)]

/-- The specializer of an operator: that of the first key which is in the table.  A later entry
replaces an earlier one with its key. -/
def searchBinary (op : BinaryOp) (l r : ValueType) : Option BinarySpecializer :=
  (binaryKeys op l r).findSome? fun key => binaryTable.reverse.lookup key

/-- The operator on the values of its operands. -/
def dynamicBinary (op : BinaryOp) (l r : TypedCode) : TypedCode :=
  ⟨.boxed, .binary (.dynamic op) (l.inRep .boxed) (r.inRep .boxed)⟩

/-- What the search finds for the operator `+`. -/
def sumSpecializer : Rep → Rep → Option BinarySpecializer
  | .string, .boxed | .boxed, .string => some .concatenationWithUnknown
  | .string, _ | _, .string => some .concatenation
  | .boxed, _ | _, .boxed => none
  | _, _ => some (.numeric .add)

/-- What the search finds.  Only for the operator `+` it depends on the operands. -/
def BinaryOp.specializer? (op : BinaryOp) (ρ σ : Rep) : Option BinarySpecializer :=
  match op.family with
  | .sum => sumSpecializer ρ σ
  | .numeric n => some (.numeric n)
  | .relation rel => some (.relation rel)
  | .equality e => some (.equality e)
  | .membership => some .membership
  | .instanceOf => some .instanceOf

theorem searchBinary_eq (op : BinaryOp) (ρ σ : Rep) :
    searchBinary op ρ.valueType σ.valueType = op.specializer? ρ σ := by
  have hsearch : [Rep.double, .boolean, .string, .boxed].all fun ρ =>
      [Rep.double, .boolean, .string, .boxed].all fun σ =>
        searchBinary op ρ.valueType σ.valueType = op.specializer? ρ σ := by
    cases op <;> decide +kernel
  simp only [List.all_eq_true, decide_eq_true_eq] at hsearch
  exact hsearch ρ (by cases ρ <;> decide) σ (by cases σ <;> decide)

/-- The code that the search gives for a binary operator. -/
def searchedBinary (op : BinaryOp) (l r : TypedCode) : TypedCode :=
  match searchBinary op l.rep.valueType r.rep.valueType with
  | some s => s.build l r
  | none => dynamicBinary op l r

/-- The code of a binary operator is what the search gives. -/
theorem specializeBinary_eq_searched (op : BinaryOp) (l r : TypedCode) :
    specializeBinary op l r = searchedBinary op l r := by
  unfold searchedBinary
  rw [searchBinary_eq]
  unfold specializeBinary BinaryOp.specializer?
  cases hop : op.family with
  | sum =>
    obtain rfl : op = .add := by cases op <;> first | rfl | cases hop
    obtain ⟨ρ, cl⟩ := l
    obtain ⟨σ, cr⟩ := r
    cases ρ <;> cases σ <;> rfl
  | _ => rfl

/-! ### Unary operators -/

/-- A way to make code for a unary operator. -/
inductive UnarySpecializer where
  | negate
  | plus
  | complement
  | not
  | typeOf
  | void
deriving DecidableEq

/-- The code that a specializer makes for an operand. -/
def UnarySpecializer.build : UnarySpecializer → TypedCode → TypedCode
  | .negate, c => ⟨.double, .unary .negate (c.inRep .double)⟩
  | .plus, c => ⟨.double, c.inRep .double⟩
  | .complement, c => ⟨.double, .unary .complement (c.inRep .double)⟩
  | .not, c => ⟨.boolean, .unary .not (c.inRep .boolean)⟩
  | .typeOf, c => ⟨.string, .unary (.typeOf c.rep) c.code⟩
  | .void, c => ⟨.boxed, .unary (.void c.rep) c.code⟩

/-- The table of unary operators. -/
def unaryTable : List ((UnaryOp × ValueType) × UnarySpecializer) :=
  [((.minus, .unknown), .negate), ((.plus, .unknown), .plus),
    ((.bitwiseNot, .unknown), .complement),
   ((.logicalNot, .unknown), .not), ((.typeOf, .double), .typeOf), ((.typeOf, .boolean), .typeOf),
   ((.typeOf, .string), .typeOf), ((.typeOf, .unknown), .typeOf), ((.void, .unknown), .void)]

/-- The specializer of an operator: that for the type of the operand, or else that for an unknown
one. -/
def searchUnary (op : UnaryOp) (t : ValueType) : Option UnarySpecializer :=
  [(op, t), (op, .unknown)].findSome? fun key => unaryTable.reverse.lookup key

/-- The code that the search gives for a unary operator. -/
def searchedUnary (op : UnaryOp) (c : TypedCode) : TypedCode :=
  match searchUnary op c.rep.valueType with
  | some s => s.build c
  | none => ⟨.boxed, .unary (.dynamic op) (c.inRep .boxed)⟩

/-- The code of a unary operator is what the search gives. -/
theorem specializeUnary_eq_searched (op : UnaryOp) (c : TypedCode) :
    specializeUnary op c = searchedUnary op c := by
  obtain ⟨ρ, c⟩ := c
  cases op <;> cases ρ <;> rfl

/-! ### Operators on values -/

/-- The code of an operator is what the search in the tables gives, and it does what the operator
does with values: it evaluates the left operand and then the right one, whatever their
representations, and applies the operator to the values.  Results, errors and the states that are
left behind are the same, on every host and from every state. -/
theorem specialized_operators (host : Host) :
    (∀ (op : BinaryOp) (l r : TypedCode), specializeBinary op l r = searchedBinary op l r ∧
      ((specializeBinary op l r).inRep .boxed).eval host = (do
        let x ← (l.inRep .boxed).eval host
        let y ← (r.inRep .boxed).eval host
        Act.lift (Run.binary host.call op x y))) ∧
    ∀ (op : UnaryOp) (c : TypedCode), specializeUnary op c = searchedUnary op c ∧
      ((specializeUnary op c).inRep .boxed).eval host = (do
        let x ← (c.inRep .boxed).eval host
        Act.lift (Run.unary host.call op x)) := by
  refine ⟨fun op l r => ⟨specializeBinary_eq_searched op l r, ?_⟩,
    fun op c => ⟨specializeUnary_eq_searched op c, ?_⟩⟩
  · simp only [TypedCode.eval_inRep_boxed, value_specializeBinary]
  · simp only [TypedCode.eval_inRep_boxed, value_specializeUnary]

end ScriptEngine
