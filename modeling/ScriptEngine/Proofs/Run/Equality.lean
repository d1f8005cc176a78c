import ScriptEngine.Run.Operator
import ScriptEngine.Proofs.Run.Agreement

/-!
# Loose equality

The operator `==` decides in order: it answers at once, or it makes one of the two values a number
or a primitive value and compares again.  A comparison makes at most two numbers of booleans and one
primitive value of an object, which may be a boolean again in the place of the other one, so that
four comparisons are always enough.  Each case for a left operand has its mirror image among the
cases for a right operand; that both orders of the operands come to the same computation is seen
from the closed form `Run.looselyEqual`, where everything but two texts is compared as numbers.

## Main definitions

* `Value.SameType` : values of one type.
* `Run.compareWithin` : the comparisons one after the other, at most as many as said.
* `Run.EqualityLaws` : what holds of `==` on two values.

## Main statements

* `float_beq_comm` : the equality of numbers does not depend on their order.
* `Run.compareWithin_eq` : four comparisons come to an end and yield what `Run.looselyEqual` yields.
* `Run.equalityLaws` : `==` is symmetric, ends, and is strict on values of one type.
-/

namespace ScriptEngine

/-! ### Numbers -/

section

open Float.Model (UnpackedFloat)

private theorem compare_swap (x y : UnpackedFloat) : (x.compare y).map .swap = y.compare x := by
  have hsign (s t : UnpackedFloat.Sign) : (compare s t).swap = compare t s := by
    cases s <;> cases t <;> rfl
  have hmagnitude (e e' : Int) (m m' : Nat) :
      ((compare e e').then (compare m m')).swap = (compare e' e).then (compare m' m) := by
    rw [Ordering.swap_then, Int.compare_swap, Nat.compare_swap]
  cases x with
  | notANumber => cases y <;> rfl
  | infinity s =>
    cases y with
    | notANumber => rfl
    | infinity t => exact congrArg some (hsign s t)
    | zero | finite => cases s <;> rfl
  | zero =>
    cases y with
    | notANumber | zero => rfl
    | infinity t | finite t => cases t <;> rfl
  | finite s =>
    cases y with
    | notANumber => rfl
    | infinity t => cases t <;> rfl
    | zero => cases s <;> rfl
    | finite t =>
      cases s <;> cases t <;> try rfl
      · exact congrArg (some ·.swap) (hmagnitude ..)
      · exact congrArg some (hmagnitude ..)

theorem float_beq_comm (x y : Float) : (x == y) = (y == x) := by
  have hbeq (x y : Float) :
      (x == y) = (x.toModel.unpack.compare y.toModel.unpack == some .eq) := rfl
  rw [hbeq, hbeq, ← compare_swap x.toModel.unpack]
  cases x.toModel.unpack.compare y.toModel.unpack with
  | none => rfl
  | some o => cases o <;> rfl

end

/-! ### Values that are not objects -/

namespace Value

/-- Values of one type. -/
def SameType : Value → Value → Prop
  | .undefined, .undefined | .null, .null => True
  | .boolean _, .boolean _ | .number _, .number _ => True
  | .string _, .string _ | .object _, .object _ => True
  | _, _ => False

theorem looselyEqual_comm (a b : Value) : a.looselyEqual b = b.looselyEqual a := by
  cases a with
  | undefined | null => cases b <;> rfl
  | string s =>
    cases b with
    | undefined | null => rfl
    | string t => exact Bool.beq_comm
    | _ => exact float_beq_comm _ _
  | _ =>
    cases b with
    | undefined | null => rfl
    | _ => exact float_beq_comm _ _

/-- A boolean is compared as its number. -/
theorem looselyEqual_boolean (p : Value) (b : Bool) :
    p.looselyEqual (.boolean b) = p.looselyEqual (.number (primitiveToNumber (.boolean b))) := by
  cases p <;> rfl

/-- The numbers of two booleans are equal if and only if the booleans are. -/
theorem looselyEqual_booleans (a b : Bool) : (boolean a).looselyEqual (.boolean b) = (a == b) := by
  cases a <;> cases b <;> decide +kernel

end Value

namespace Run

variable (call : Caller)

/-! ### One comparison after the other -/

/-- The operator `==` as a sequence of comparisons, of which the last one answers.  The cases are
tried in this order, and there are at most as many comparisons as said. -/
def compareWithin : Nat → Value → Value → Run Bool
  | 0, _, _ => Exec.exhaust
  | n + 1, a, b =>
    match a, b with
    | .undefined, .undefined | .undefined, .null | .null, .undefined | .null, .null => pure true
    | .undefined, _ | .null, _ | _, .undefined | _, .null => pure false
    | .number x, .string s => pure (x == stringToNumber s)
    | .string s, .number y => pure (stringToNumber s == y)
    | .boolean _, b => compareWithin n (.number a.primitiveToNumber) b
    | a, .boolean _ => compareWithin n a (.number b.primitiveToNumber)
    | .object r, .object q => pure (r == q)
    | .object _, b => do compareWithin n (← toPrimitive call a .default) b
    | a, .object _ => do compareWithin n a (← toPrimitive call b .default)
    | a, b => pure (a.strictlyEqual b)

variable {call}

/-- A method counts only if it returns something else than an object. -/
theorem isObject_of_tryMethod {r : Ref} {name : String} {o : Option Value}
    (h : (tryMethod call r name).Yields o) : ∀ p ∈ o, p.isObject = false := by
  obtain ⟨f, -, h⟩ := h.of_bind
  obtain ⟨callable, -, h⟩ := h.of_bind
  split at h
  · obtain ⟨v, -, h⟩ := h.of_bind
    rw [h.of_pure]
    split <;> simp_all
  · rw [h.of_pure]
    simp

theorem isObject_of_firstResult {r : Ref} {names : List String} {o : Option Value}
    (h : (Exec.firstResult (tryMethod call r) names).Yields o) : ∀ p ∈ o, p.isObject = false := by
  induction names with
  | nil =>
    obtain ⟨s, s', h⟩ := h
    cases h
    simp
  | cons name rest ih =>
    rw [Exec.firstResult_cons] at h
    obtain ⟨found, hfound, h⟩ := h.of_bind
    cases found with
    | none => exact ih h
    | some p =>
      rw [h.of_pure]
      exact isObject_of_tryMethod hfound

theorem isObject_of_toPrimitive {v p : Value} {hint : Hint}
    (h : (toPrimitive call v hint).Yields p) :
    p.isObject = false := by
  cases v with
  | object r =>
    obtain ⟨found, hfound, h⟩ := h.of_bind
    cases found with
    | none => exact h.of_fail.elim
    | some q =>
      rw [h.of_pure]
      exact isObject_of_firstResult hfound q rfl
  | undefined | null | boolean | number | string =>
    rw [Exec.Yields.of_pure h]
    rfl

section

variable {p q : Value} (hp : p.isObject = false)

include hp

theorem compareWithin_primitive (hq : q.isObject = false) (n : Nat) :
    compareWithin call (n + 3) p q = pure (p.looselyEqual q) := by
  cases p <;> cases q <;> first | rfl | contradiction

/-- Beside a number, one comparison less is needed. -/
theorem compareWithin_number_right (y : Float) (n : Nat) :
    compareWithin call (n + 2) p (.number y) = pure (p.looselyEqual (.number y)) := by
  cases p <;> first | rfl | contradiction

theorem compareWithin_number_left (x : Float) (n : Nat) :
    compareWithin call (n + 2) (.number x) p = pure ((Value.number x).looselyEqual p) := by
  cases p <;> first | rfl | contradiction

end

theorem compareWithin_eq {n : Nat} (hn : 4 ≤ n) (a b : Value) :
    compareWithin call n a b = looselyEqual call a b := by
  obtain ⟨n, rfl⟩ := Nat.exists_eq_add_of_le' hn
  -- What is left to do once the object is primitive.
  have hconvert (r : Ref) {f : Value → Run Bool} {g : Value → Bool}
      (h : ∀ p : Value, p.isObject = false → f p = pure (g p)) :
      (toPrimitive call (.object r) .default >>= f) = do
        return g (← toPrimitive call (.object r) .default) :=
    Exec.bind_congr fun p hp => h p (isObject_of_toPrimitive hp)
  cases a with
  | object r =>
    cases b with
    | undefined | null | object => rfl
    | number y => exact hconvert r fun p hp => compareWithin_number_right hp y (n + 1)
    | string s => exact hconvert r fun p hp => compareWithin_primitive hp rfl n
    | boolean b =>
      refine hconvert r fun p hp => ?_
      rw [Value.looselyEqual_boolean]
      exact compareWithin_number_right hp _ n
  | undefined | null => cases b <;> rfl
  | number x =>
    cases b with
    | object r => exact hconvert r fun p hp => compareWithin_number_left hp x (n + 1)
    | _ => rfl
  | string s =>
    cases b with
    | object r => exact hconvert r fun p hp => compareWithin_primitive rfl hp n
    | _ => rfl
  | boolean a =>
    cases b with
    | object r =>
      refine hconvert r fun p hp => ?_
      rw [Value.looselyEqual_comm, Value.looselyEqual_boolean, Value.looselyEqual_comm]
      exact compareWithin_number_left hp _ n
    | _ => rfl

/-! ### The laws -/

theorem looselyEqual_comm (a b : Value) : looselyEqual call a b = looselyEqual call b a := by
  cases a with
  | object r =>
    cases b with
    | object q => exact congrArg pure Bool.beq_comm
    | undefined | null => rfl
    | _ => exact Exec.bind_congr fun p _ => congrArg pure (p.looselyEqual_comm _)
  | _ =>
    cases b with
    | object q =>
      first
      | rfl
      | exact Exec.bind_congr fun p _ => congrArg pure (Value.looselyEqual_comm _ p)
    | _ => exact congrArg pure (Value.looselyEqual_comm _ _)

/-- Two values are compared at once, or one of them is an object and its primitive value is compared
with the other one, which is neither an object nor nullish. -/
theorem looselyEqual_cases (a b : Value) :
    (∃ equal, looselyEqual call a b = pure equal) ∨
      ∃ r p, (a = .object r ∧ b = p ∨ a = p ∧ b = .object r) ∧
        p.isObject = false ∧ p.isNullish = false ∧
        looselyEqual call a b = do
          return (← toPrimitive call (.object r) .default).looselyEqual p := by
  have hright (r : Ref) (p : Value) : (∃ equal, looselyEqual call (.object r) p = pure equal) ∨
      p.isObject = false ∧ p.isNullish = false ∧ looselyEqual call (.object r) p = do
          return (← toPrimitive call (.object r) .default).looselyEqual p := by
    cases p with
    | object | undefined | null => exact .inl ⟨_, rfl⟩
    | _ => exact .inr ⟨rfl, rfl, rfl⟩
  cases a with
  | object r => exact (hright r b).imp_right fun h => ⟨r, b, .inl ⟨rfl, rfl⟩, h⟩
  | _ =>
    cases b with
    | object r =>
      rw [looselyEqual_comm]
      exact (hright r _).imp_right fun h => ⟨r, _, .inr ⟨rfl, rfl⟩, h⟩
    | _ => exact .inl ⟨_, rfl⟩

variable (call) in
/-- What holds of the operator `==` on two values, for any way to call functions. -/
structure EqualityLaws (a b : Value) : Prop where
  /-- At most four comparisons are made. -/
  settled : ∀ n, 4 ≤ n → compareWithin call n a b = looselyEqual call a b
  /-- At most one object is made primitive, once, and what is left to do calls nothing. -/
  converts : (∃ equal, looselyEqual call a b = pure equal) ∨
    ∃ r p, (a = .object r ∧ b = p ∨ a = p ∧ b = .object r) ∧ p.isObject = false ∧
      p.isNullish = false ∧
      looselyEqual call a b = do
        return (← toPrimitive call (.object r) .default).looselyEqual p
  /-- The comparison ends if that conversion does. -/
  ends : ∀ m, looselyEqual call a b m = .exhausted →
    ∃ r, (a = .object r ∨ b = .object r) ∧ toPrimitive call (.object r) .default m = .exhausted
  /-- Both orders of the operands are one computation: the same result or the same error from each
  machine, with the same machine left behind. -/
  symmetric : looselyEqual call a b = looselyEqual call b a
  /-- Values of one type are compared as by `===`. -/
  strict : a.SameType b → looselyEqual call a b = pure (a.strictlyEqual b)
  /-- What is `undefined` or `null` equals exactly what is. -/
  nullish : a.isNullish = true → looselyEqual call a b = pure b.isNullish

theorem looselyEqual_ends {a b : Value} {m : Machine} (h : looselyEqual call a b m = .exhausted) :
    ∃ r, (a = .object r ∨ b = .object r) ∧ toPrimitive call (.object r) .default m =
      .exhausted := by
  obtain ⟨equal, heq⟩ | ⟨r, p, hr, -, -, heq⟩ := @looselyEqual_cases call a b
  · rw [heq] at h
    cases h
  · refine ⟨r, hr.imp And.left And.right, ?_⟩
    rw [heq] at h
    change Exec.andThen _ _ m = _ at h
    unfold Exec.andThen at h
    cases hm : toPrimitive call (.object r) .default m with
    | exhausted => rfl
    | ok | error =>
      rw [hm] at h
      cases h

theorem looselyEqual_of_sameType {a b : Value} (h : a.SameType b) :
    looselyEqual call a b = pure (a.strictlyEqual b) := by
  cases a <;> cases b <;> try exact h.elim
  case boolean.boolean a b => exact congrArg pure (Value.looselyEqual_booleans a b)
  all_goals rfl

theorem looselyEqual_of_isNullish {a : Value} (h : a.isNullish = true) (b : Value) :
    looselyEqual call a b = pure b.isNullish := by
  cases a with
  | undefined | null => cases b <;> rfl
  | _ => cases h

theorem equalityLaws (call : Caller) (a b : Value) : EqualityLaws call a b where
  settled _ hn := compareWithin_eq hn a b
  converts := looselyEqual_cases a b
  ends _ := looselyEqual_ends
  symmetric := looselyEqual_comm a b
  strict := looselyEqual_of_sameType
  nullish h := looselyEqual_of_isNullish h b

end Run

end ScriptEngine
