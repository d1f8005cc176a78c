import ScriptEngine.Compile.Body
import ScriptEngine.Run.Evaluate
import ScriptEngine.Proofs.Run.Agreement
import ScriptEngine.Proofs.Analysis.Typing

/-!
# Meaning of code in a representation

The representation in which code yields its result does not matter for the value that the result
stands for: every form of an operator that compilation chooses computes what the operator does with
values.

## Main definitions

* `TypedCode.value` : the value that code yields, whatever its representation.

## Main statements

* `TypedCode.eval_inRep` : code in another representation.
* `value_specializeBinary`, `value_specializeUnary`, `value_logicalCode`, `value_conditionalCode`,
  `value_sequenceCode` : the code of operators.
* `value_load`, `value_store`, `value_stepCode` : the code that reads, writes and steps a name.
-/

namespace ScriptEngine

variable (host : Host)

/-- The value that code yields. -/
def TypedCode.value (c : TypedCode) : Act Value := do
  let x ← c.code.eval host
  return c.rep.box x

variable {host}

attribute [grind =] Code.eval StatementCode.exec

/-! ### Lifting -/

namespace Act

variable {α β : Type}

@[simp] theorem lift_pure (a : α) : lift (pure a) = pure a := rfl

@[simp] theorem lift_bind (x : Run α) (f : α → Run β) :
    lift (x >>= f) = lift x >>= fun a => lift (f a) := by
  funext ⟨frame, machine⟩
  change lift (Exec.andThen x f) ⟨frame, machine⟩ = Exec.andThen (lift x) _ ⟨frame, machine⟩
  unfold lift Exec.andThen
  dsimp only
  cases x machine <;> rfl

theorem map_lift (f : α → β) (x : Run α) : f <$> lift x = lift (f <$> x) := by
  simp only [map_eq_pure_bind, lift_bind, lift_pure]

end Act

/-! ### Conversions -/

theorem toPrimitive_box {call : Caller} {ρ : Rep} (hρ : ρ ≠ .boxed) (x : ρ.Carrier) (hint : Hint) :
    Run.toPrimitive call (ρ.box x) hint = pure (ρ.box x) := by
  cases ρ with
  | boxed => exact absurd rfl hρ
  | _ => rfl

/-- Results whose type is known change their representation without running a script. -/
theorem convert_box {call : Caller} {ρ : Rep} (hρ : ρ ≠ .boxed) (σ : Rep) (x : ρ.Carrier) :
    Run.convert call σ (ρ.box x) = pure (σ.ofPrimitive (ρ.box x)) := by
  cases ρ with
  | boxed => exact absurd rfl hρ
  | _ => cases σ <;> rfl

theorem convert_self {call : Caller} (ρ : Rep) (x : ρ.Carrier) :
    Run.convert call ρ (ρ.box x) = pure x := by
  cases ρ <;> rfl

theorem convert_of_holds {call : Caller} {ρ : Rep} {v : Value} (h : ρ.Holds v) :
    Run.convert call ρ v = pure (ρ.ofPrimitive v) := by
  rw [← h]
  cases ρ <;> rfl

namespace TypedCode

theorem eval_inRep (c : TypedCode) (σ : Rep) :
    (c.inRep σ).eval host = c.value host >>= fun v => Act.lift (Run.convert host.call σ v) := by
  obtain ⟨ρ, code⟩ := c
  simp only [value, bind_assoc, pure_bind]
  unfold inRep Code.convert
  split
  · rename_i h
    dsimp only at h
    subst h
    simp only [convert_self, Act.lift_pure, bind_pure]
  · rw [Code.eval]
    rfl

@[simp] theorem eval_inRep_boxed (c : TypedCode) : (c.inRep .boxed).eval host = c.value host := by
  rw [eval_inRep]
  exact bind_pure (c.value host)

@[simp] theorem eval_inRep_boolean (c : TypedCode) :
    (c.inRep .boolean).eval host = Value.toBoolean <$> c.value host := by
  rw [eval_inRep]
  rfl

theorem value_mk (ρ : Rep) (c : Code ρ) :
    TypedCode.value host ⟨ρ, c⟩ = ρ.box <$> c.eval host := rfl

theorem value_constant (v : Value) : (constant v).value host = pure v := by
  cases v <;> (unfold constant value; rw [Code.eval]; rfl)

/-- Code that is brought to a representation that holds its value yields the same value. -/
theorem value_inRep (c : TypedCode) {σ : Rep} (h : c.rep = σ ∨ σ = .boxed) :
    TypedCode.value host ⟨σ, c.inRep σ⟩ = c.value host := by
  rw [value_mk]
  rcases h with rfl | rfl
  · rw [eval_inRep]
    simp only [value, bind_assoc, pure_bind, convert_self, Act.lift_pure, map_bind, map_pure]
  · rw [eval_inRep_boxed]
    exact id_map _

end TypedCode

/-! ### Operators on results -/

/-- Both operands of a binary form are evaluated before either changes its representation, if that
runs no script. -/
theorem eval_binary {ρ σ τ : Rep} (form : BinaryForm ρ σ τ) {l r : TypedCode}
    (hl : l.rep ≠ .boxed ∨ ρ = .boxed) (hr : r.rep ≠ .boxed ∨ σ = .boxed) :
    (Code.binary form (l.inRep ρ) (r.inRep σ)).eval host =
      l.code.eval host >>= fun x => r.code.eval host >>= fun y => Act.lift
        (form.apply host.call (ρ.ofPrimitive (l.rep.box x)) (σ.ofPrimitive (r.rep.box y))) := by
  have hconvert {c : TypedCode} {ρ : Rep} (h : c.rep ≠ .boxed ∨ ρ = .boxed) (x : c.rep.Carrier) :
      Run.convert host.call ρ (c.rep.box x) = pure (ρ.ofPrimitive (c.rep.box x)) := by
    rcases h with h | rfl
    · exact convert_box h ρ x
    · rfl
  rw [Code.eval]
  simp only [TypedCode.eval_inRep, TypedCode.value, bind_assoc, pure_bind, hconvert hl, hconvert hr,
    Act.lift_pure]

/-- A binary form does what an operator does with values if it does so for operands in the
representations that they have. -/
theorem value_binary {ρ σ τ : Rep} {form : BinaryForm ρ σ τ} {l r : TypedCode} {op : BinaryOp}
    (hl : l.rep ≠ .boxed ∨ ρ = .boxed) (hr : r.rep ≠ .boxed ∨ σ = .boxed)
    (h : ∀ x y, τ.box <$> form.apply host.call (ρ.ofPrimitive (l.rep.box x))
      (σ.ofPrimitive (r.rep.box y)) = Run.binary host.call op (l.rep.box x) (r.rep.box y)) :
    TypedCode.value host ⟨τ, .binary form (l.inRep ρ) (r.inRep σ)⟩ =
      l.value host >>= fun x => r.value host >>= fun y =>
        Act.lift (Run.binary host.call op x y) := by
  rw [TypedCode.value_mk, eval_binary form hl hr]
  simp only [map_bind, Act.map_lift, h, TypedCode.value, bind_assoc, pure_bind]

theorem sum_string_left (call : Caller) (s : String) (y : Value) :
    Run.sum call (.string s) y =
      Value.string <$> BinaryForm.concatenateValues.apply call (.string s) y := by
  simp only [Run.sum, BinaryForm.apply, Run.toPrimitive, map_eq_pure_bind, bind_assoc, pure_bind]
  rfl

theorem sum_string_right (call : Caller) (x : Value) (t : String) :
    Run.sum call x (.string t) =
      Value.string <$> BinaryForm.concatenateValues.apply call x (.string t) := by
  simp only [Run.sum, BinaryForm.apply, Run.toPrimitive, map_eq_pure_bind, bind_assoc, pure_bind]
  congr 1
  funext p
  cases p <;> rfl

theorem value_sumCode (l r : TypedCode) : (sumCode l r).value host =
    l.value host >>= fun x => r.value host >>= fun y =>
      Act.lift (Run.binary host.call .add x y) := by
  obtain ⟨ρ, cl⟩ := l
  obtain ⟨σ, cr⟩ := r
  cases ρ <;> cases σ
  case string.boxed =>
    exact value_binary (.inr rfl) (.inr rfl) fun x y => (sum_string_left host.call x y).symm
  case boxed.string =>
    exact value_binary (.inr rfl) (.inr rfl) fun x y => (sum_string_right host.call x y).symm
  case double.boxed | boolean.boxed | boxed.double | boxed.boolean | boxed.boxed =>
    exact value_binary (.inr rfl) (.inr rfl) fun x y => id_map _
  all_goals exact value_binary (.inl (by simp)) (.inl (by simp)) fun x y => rfl

theorem value_numericCode (op : NumericOp) (l r : TypedCode) {bop : BinaryOp}
    (h : bop.family = .numeric op) : (numericCode op l r).value host =
    l.value host >>= fun x => r.value host >>= fun y =>
      Act.lift (Run.binary host.call bop x y) := by
  have hb (x y : Value) :
      Run.binary host.call bop x y = Value.number <$> Run.numeric host.call op x y := by
    simp only [Run.binary, h]
    rfl
  obtain ⟨ρ, cl⟩ := l
  obtain ⟨σ, cr⟩ := r
  unfold numericCode
  split
  · exact value_binary (.inr rfl) (.inr rfl) fun x y => (hb _ _).symm
  · rename_i hρ
    simp only [Bool.or_eq_true, decide_eq_true_eq, not_or] at hρ
    refine value_binary (.inl hρ.1) (.inl hρ.2) fun x y => ?_
    rw [hb]
    simp only [Run.numeric, Run.toNumber, toPrimitive_box hρ.1, toPrimitive_box hρ.2, pure_bind]
    rfl

theorem Text.compareUnits_swap (s t : List Nat) :
    Text.compareUnits t s = (Text.compareUnits s t).swap := by
  fun_induction Text.compareUnits s t with
  | case1 => rfl
  | case2 => rfl
  | case3 => rfl
  | case4 a as b bs h =>
    have h' : ¬ b < a := by omega
    simp [Text.compareUnits, h, h']
  | case5 a as b bs h h' => simp [Text.compareUnits, h']
  | case6 a as b bs h h' ih => simp [Text.compareUnits, h, h', ih]

/-- Asking whether the lesser of two strings is less gives the order of code units. -/
theorem Relation.strings_eq (r : Relation) (s t : String) :
    r.strings s t = (some (if r.isSwapped then Text.compare16 t s else Text.compare16 s t).isLT ==
      some r.expected) := by
  have hswap : Text.compare16 t s = (Text.compare16 s t).swap := Text.compareUnits_swap _ _
  rw [hswap]
  cases r <;> simp only [Relation.strings, Relation.isSwapped, Relation.expected] <;>
    cases Text.compare16 s t <;> rfl

theorem value_relationCode (rel : Relation) (l r : TypedCode) {op : BinaryOp}
    (h : op.family = .relation rel) : (relationCode rel l r).value host =
      l.value host >>= fun x => r.value host >>= fun y =>
        Act.lift (Run.binary host.call op x y) := by
  have hb (x y : Value) :
      Run.binary host.call op x y = Value.boolean <$> Run.compare host.call rel x y := by
    simp only [Run.binary, h]
    rfl
  obtain ⟨ρ, cl⟩ := l
  obtain ⟨σ, cr⟩ := r
  cases ρ <;> cases σ
  case double.double =>
    refine value_binary (.inl (by simp)) (.inl (by simp)) fun x y => ?_
    rw [hb]
    cases rel <;> rfl
  case string.string =>
    refine value_binary (.inl (by simp)) (.inl (by simp)) fun s t => ?_
    rw [hb]
    change (pure (Value.boolean (rel.strings s t)) : Run Value) = _
    rw [Relation.strings_eq]
    cases rel <;> rfl
  all_goals exact value_binary (.inr rfl) (.inr rfl) fun x y => (hb _ _).symm

theorem equalBooleans_eq (b c : Bool) :
    (Value.primitiveToNumber (.boolean b) == Value.primitiveToNumber (.boolean c)) = (b == c) := by
  cases b <;> cases c <;> decide

theorem value_equalityCode (e : Equality) (l r : TypedCode) {op : BinaryOp}
    (h : op.family = .equality e) : (equalityCode e l r).value host =
      l.value host >>= fun x => r.value host >>= fun y =>
        Act.lift (Run.binary host.call op x y) := by
  have hb (x y : Value) :
      Run.binary host.call op x y = Value.boolean <$> Run.equal host.call e x y := by
    simp only [Run.binary, h]
    rfl
  obtain ⟨strict, negated⟩ := e
  obtain ⟨ρ, cl⟩ := l
  obtain ⟨σ, cr⟩ := r
  cases ρ <;> cases σ
  case double.double | string.string =>
    refine value_binary (.inl (by simp)) (.inl (by simp)) fun x y => ?_
    rw [hb]
    cases strict <;> rfl
  case boolean.boolean =>
    refine value_binary (.inl (by simp)) (.inl (by simp)) fun b c => ?_
    rw [hb]
    cases strict with
    | true => rfl
    | false =>
      change (pure (Value.boolean ((b == c) != negated)) : Run Value) = _
      rw [← equalBooleans_eq]
      rfl
  all_goals exact value_binary (.inr rfl) (.inr rfl) fun x y => (hb _ _).symm

/-- The code of a binary operator computes the operator on the values of its operands. -/
theorem value_specializeBinary (op : BinaryOp) (l r : TypedCode) :
    (specializeBinary op l r).value host =
      l.value host >>= fun x => r.value host >>= fun y =>
        Act.lift (Run.binary host.call op x y) := by
  unfold specializeBinary
  cases h : op.family with
  | sum =>
    obtain rfl : op = .add := by cases op <;> first | rfl | cases h
    exact value_sumCode l r
  | numeric n => exact value_numericCode n l r h
  | relation rel => exact value_relationCode rel l r h
  | equality e => exact value_equalityCode e l r h
  | membership =>
    refine value_binary (.inr rfl) (.inr rfl) fun x y => ?_
    simp only [Run.binary, h]
    rfl
  | instanceOf =>
    refine value_binary (.inr rfl) (.inr rfl) fun x y => ?_
    simp only [Run.binary, h]
    rfl

/-- The code of a unary operator computes the operator on the value of its operand. -/
theorem value_specializeUnary (op : UnaryOp) (c : TypedCode) : (specializeUnary op c).value host =
    c.value host >>= fun x => Act.lift (Run.unary host.call op x) := by
  cases op with
  | minus | bitwiseNot =>
    simp only [specializeUnary, TypedCode.value_mk, Code.eval, TypedCode.eval_inRep, map_bind,
      bind_assoc, Act.map_lift, ← Act.lift_bind]
    rfl
  | plus =>
    simp only [specializeUnary, TypedCode.value_mk, TypedCode.eval_inRep, map_bind, Act.map_lift]
    rfl
  | logicalNot =>
    simp only [specializeUnary, TypedCode.value_mk, Code.eval, TypedCode.eval_inRep, map_bind,
      bind_assoc, Act.map_lift, ← Act.lift_bind]
    rfl
  | typeOf | void =>
    simp only [specializeUnary, Code.eval, TypedCode.value, bind_assoc, pure_bind]
    rfl
  | delete =>
    simp only [specializeUnary, TypedCode.value_mk, Code.eval, TypedCode.eval_inRep_boxed, map_bind,
      Act.map_lift]
    rfl

/-! ### One of two, and one after the other -/

theorem commonRep_left (l r : TypedCode) : l.rep = commonRep l r ∨ commonRep l r = .boxed := by
  unfold commonRep
  split
  · exact .inl rfl
  · exact .inr rfl

theorem commonRep_right (l r : TypedCode) : r.rep = commonRep l r ∨ commonRep l r = .boxed := by
  unfold commonRep
  split
  · rename_i h
    exact .inl h.symm
  · exact .inr rfl

theorem value_logicalCode (op : LogicalOp) (l r : TypedCode) : (logicalCode op l r).value host =
    l.value host >>= fun x => if op.goesOn x.toBoolean then r.value host else pure x := by
  rw [← TypedCode.value_inRep l (commonRep_left l r), ← TypedCode.value_inRep r
    (commonRep_right l r)]
  unfold logicalCode
  simp only [TypedCode.value, Code.eval, bind_assoc, pure_bind]
  congr 1
  funext x
  unfold Rep.isTrue
  split <;> simp

theorem value_conditionalCode (test : Code .boolean) (c d : TypedCode) :
    (conditionalCode test c d).value host =
      test.eval host >>= fun b => if b then c.value host else d.value host := by
  rw [← TypedCode.value_inRep c (commonRep_left c d), ← TypedCode.value_inRep d
    (commonRep_right c d)]
  unfold conditionalCode
  simp only [TypedCode.value, Code.eval, bind_assoc]
  congr 1
  funext b
  cases b <;> rfl

theorem eval_effect (c : TypedCode) :
    c.effect.exec host = c.value host >>= fun _ => pure .normal := by
  simp only [TypedCode.effect, StatementCode.exec, TypedCode.value, bind_assoc, pure_bind]

theorem value_sequenceCode_cons (first next : TypedCode) (rest : List TypedCode) :
    (sequenceCode first (next :: rest)).value host =
      first.value host >>= fun _ => (sequenceCode next rest).value host := by
  simp only [sequenceCode, TypedCode.value, Code.eval, bind_assoc, pure_bind]

/-! ### Names -/

theorem value_load (a : Access) (lenient : Bool) : (a.load lenient).value host =
    a.resolve >>= fun p => p.read lenient := by
  unfold Access.load
  split
  · simp only [TypedCode.value, Code.eval]
    rfl
  · rw [TypedCode.value_mk, Code.eval, Reference.resolve]
    exact id_map _

/-- The code that writes a name writes the value as it is, if a slot that takes it can hold it. -/
theorem value_store (a : Access) (v : TypedCode)
    (h : ∀ ρ index, a.scopes = [] → a.binding = ⟨.slot ρ index, none⟩ →
      ∀ x, (v.value host).Yields x → ρ.Holds x) :
    (a.store v).value host =
      a.resolve >>= fun p => v.value host >>= fun x => p.write x >>= fun _ => pure x := by
  unfold Access.store
  split
  · rename_i name ρ index
    have hyields := h ρ index rfl rfl
    simp only [TypedCode.value_mk, Code.eval, TypedCode.eval_inRep, bind_assoc, map_bind, map_pure]
    refine Exec.bind_congr fun x hx => ?_
    rw [convert_of_holds (hyields x hx), Act.lift_pure, pure_bind, hyields x hx]
    rfl
  · simp only [TypedCode.value_mk, Code.eval, Reference.resolve, TypedCode.eval_inRep_boxed]
    exact id_map _

theorem value_stepCode (op : UpdateOp) (before : Bool) (place : Reference) :
    (Compile.stepCode op before place).value host =
      place.resolve host >>= fun p => p.read false >>= fun v =>
        Act.lift (Run.toNumber host.call v) >>= fun x =>
          p.write (.number (x + op.step)) >>= fun _ =>
          pure (.number (if before then x + op.step else x)) := by
  unfold Compile.stepCode
  split
  · simp only [TypedCode.value_mk, Code.eval, Reference.resolve, map_bind, map_pure]
    rfl
  · simp only [TypedCode.value_mk, Code.eval, map_bind, map_pure]
    rfl

end ScriptEngine
