import ScriptEngine.Script.Ast

/-!
# Grouping of operands

How operands are grouped by the operators between them.  There are ten levels of operators, and the
operators of a level group to the left.  Precedence climbing reads operands and operators from the
left: it joins what it has read to the next operand as long as the operator between them has a level
that is high enough, and the right operand takes whatever has a higher level than the operator.

## Main definitions

* `Infix` : operators between two operands, with their texts and levels.
* `Grouping` : operands grouped by operators.
* `climb` : precedence climbing.
* `Grouping.Describes` : the expressions that have a grouping.

## Main statements

* `climbed_succ` : climbing can be done level by level.
* `Grouping.climbed_eq_iff` : which grouping precedence climbing builds.
-/

namespace ScriptEngine

/-! ### Operators -/

/-- Operators between two operands. -/
inductive Infix where
  | binary (op : BinaryOp)
  | logical (op : LogicalOp)
deriving Repr, DecidableEq

namespace Infix

/-- The text of an operator. -/
def text : Infix → String
  | .logical .or => "||"
  | .logical .and => "&&"
  | .binary .bitwiseOr => "|"
  | .binary .bitwiseXor => "^"
  | .binary .bitwiseAnd => "&"
  | .binary .looselyEqual => "=="
  | .binary .looselyUnequal => "!="
  | .binary .strictlyEqual => "==="
  | .binary .strictlyUnequal => "!=="
  | .binary .lessThan => "<"
  | .binary .greaterThan => ">"
  | .binary .lessThanEqual => "<="
  | .binary .greaterThanEqual => ">="
  | .binary .instanceOf => "instanceof"
  | .binary .in_ => "in"
  | .binary .leftShift => "<<"
  | .binary .rightShift => ">>"
  | .binary .unsignedRightShift => ">>>"
  | .binary .add => "+"
  | .binary .subtract => "-"
  | .binary .multiply => "*"
  | .binary .divide => "/"
  | .binary .modulo => "%"

/-- The level of an operator.  Operators of higher levels bind more tightly. -/
def level : Infix → Nat
  | .logical .or => 1
  | .logical .and => 2
  | .binary .bitwiseOr => 3
  | .binary .bitwiseXor => 4
  | .binary .bitwiseAnd => 5
  | .binary .looselyEqual | .binary .looselyUnequal | .binary .strictlyEqual | .binary
    .strictlyUnequal => 6
  | .binary .lessThan | .binary .greaterThan | .binary .lessThanEqual | .binary .greaterThanEqual
  | .binary .instanceOf | .binary .in_ => 7
  | .binary .leftShift | .binary .rightShift | .binary .unsignedRightShift => 8
  | .binary .add | .binary .subtract => 9
  | .binary .multiply | .binary .divide | .binary .modulo => 10

theorem level_pos (op : Infix) : 1 ≤ op.level := by
  rcases op with op | op <;> cases op <;> decide

theorem level_le (op : Infix) : op.level ≤ 10 := by
  rcases op with op | op <;> cases op <;> decide

end Infix

/-! ### Climbing -/

/-- Operands grouped by the operators between them. -/
inductive Grouping where
  | name (text : List Char)
  | join (op : Infix) (left right : Grouping)
deriving Repr, DecidableEq

/-- Operators, each with the name after it. -/
abbrev Operands := List (Infix × List Char)

/-- Precedence climbing.  Joins a left operand to what comes after it as long as the operators have
at least the given level, and leaves the other operators. -/
def climb (least : Nat) (left : Grouping) :
    (ops : Operands) → Grouping × {rest : Operands // rest.length ≤ ops.length}
  | [] => (left, ⟨[], Nat.le_refl _⟩)
  | (op, name) :: ops =>
    if least ≤ op.level then
      let (right, ⟨rest, hrest⟩) := climb (op.level + 1) (.name name) ops
      let (whole, ⟨last, hlast⟩) := climb least (.join op left right) rest
      (whole, ⟨last, Nat.le_succ_of_le (Nat.le_trans hlast hrest)⟩)
    else (left, ⟨(op, name) :: ops, Nat.le_refl _⟩)
termination_by ops => ops.length
decreasing_by
  · exact Nat.lt_succ_self _
  · exact Nat.lt_succ_of_le hrest

/-- The outcome of precedence climbing: the grouping and the operators that are left. -/
def climbed (least : Nat) (left : Grouping) (ops : Operands) : Grouping × Operands :=
  ((climb least left ops).1, (climb least left ops).2)

section

variable {least : Nat} {left : Grouping} {op : Infix} {name : List Char} {ops : Operands}

theorem length_climbed (least : Nat) (left : Grouping) (ops : Operands) :
    (climbed least left ops).2.length ≤ ops.length :=
  (climb least left ops).2.2

@[simp] theorem climbed_nil (least : Nat) (left : Grouping) :
    climbed least left [] = (left, []) := by
  rw [climbed, climb]

theorem climbed_stop (h : op.level < least) :
    climbed least left ((op, name) :: ops) = (left, (op, name) :: ops) := by
  rw [climbed, climb, if_neg (Nat.not_le_of_lt h)]

theorem climbed_join (h : least ≤ op.level) : climbed least left ((op, name) :: ops) =
    climbed least (.join op left (climbed (op.level + 1) (.name name) ops).1)
      (climbed (op.level + 1) (.name name) ops).2 := by
  rw [climbed, climb, if_pos h]
  rfl

/-- Climbing, as an induction over what is left. -/
theorem climbed_induct {motive : Nat → Grouping → Operands → Prop}
    (nil : ∀ least left, motive least left [])
    (stop : ∀ least left op name ops, op.level < least → motive least left ((op, name) :: ops))
    (join : ∀ least left op name ops, least ≤ op.level → motive (op.level + 1) (.name name) ops →
      motive least (.join op left (climbed (op.level + 1) (.name name) ops).1)
        (climbed (op.level + 1) (.name name) ops).2 → motive least left ((op, name) :: ops))
    (least : Nat) (left : Grouping) (ops : Operands) : motive least left ops := by
  fun_induction climb least left ops with
  | case1 => exact nil ..
  | case2 least left op name ops h right rest hrest hright whole last hlast hwhole ih ih' =>
    have hclimbed : climbed (op.level + 1) (.name name) ops = (right, rest) := by
      rw [climbed, hright]
    refine join _ _ _ _ _ h ih ?_
    rw [hclimbed]
    exact ih'
  | case3 least left op name ops h => exact stop _ _ _ _ _ (Nat.lt_of_not_le h)

/-- What is left begins with an operator of a lower level. -/
theorem level_climbed (least : Nat) (left : Grouping) (ops : Operands) :
    ∀ p ∈ (climbed least left ops).2.head?, p.1.level < least := by
  induction least, left, ops using climbed_induct with
  | nil least left => simp
  | stop least left op name ops h =>
    rw [climbed_stop h]
    rintro p ⟨⟩
    exact h
  | join least left op name ops h _ ih =>
    rw [climbed_join h]
    exact ih

/-- What is left is the end of what was there. -/
theorem climbed_suffix (least : Nat) (left : Grouping) (ops : Operands) :
    (climbed least left ops).2 <:+ ops := by
  induction least, left, ops using climbed_induct with
  | nil least left => simp
  | stop least left op name ops h => simp [climbed_stop h]
  | join least left op name ops h ih ih' =>
    rw [climbed_join h]
    exact (ih'.trans ih).trans (List.suffix_cons ..)

/-- Climbing can be done level by level. -/
theorem climbed_succ (least : Nat) (left : Grouping) (ops : Operands) : climbed least left ops =
    climbed least (climbed (least + 1) left ops).1 (climbed (least + 1) left ops).2 := by
  generalize hl : least + 1 = higher
  induction higher, left, ops using climbed_induct with
  | nil higher left => simp
  | stop higher left op name ops h => rw [climbed_stop h]
  | join higher left op name ops h _ ih =>
    rw [climbed_join h, ← ih hl, climbed_join (by omega)]

end

/-! ### Groupings -/

namespace Grouping

/-- The first name of a grouping, and the operators with the other names. -/
def parts : Grouping → List Char × Operands
  | .name text => (text, [])
  | .join op left right => (left.parts.1, left.parts.2 ++ (op, right.parts.1) :: right.parts.2)

/-- The operator of a grouping has at least a level. -/
def AtLeast (least : Nat) : Grouping → Prop
  | .name _ => True
  | .join op _ _ => least ≤ op.level

/-- The left operand of each operator has at least its level, and the right operand has a higher
one. -/
def Grouped : Grouping → Prop
  | .name _ => True
  | .join op left right =>
    left.Grouped ∧ right.Grouped ∧ left.AtLeast op.level ∧ right.AtLeast (op.level + 1)

/-- No operand gets lost or out of order. -/
theorem parts_climbed (least : Nat) (left : Grouping) (ops : Operands) :
    (climbed least left ops).1.parts.1 = left.parts.1 ∧
      (climbed least left ops).1.parts.2 ++ (climbed least left ops).2 = left.parts.2 ++ ops := by
  induction least, left, ops using climbed_induct with
  | nil least left => simp
  | stop least left op name ops h => rw [climbed_stop h]; exact ⟨rfl, rfl⟩
  | join least left op name ops h ih ih' =>
    rw [climbed_join h]
    refine ⟨ih'.1, ih'.2.trans ?_⟩
    have hname : (climbed (op.level + 1) (.name name) ops).1.parts.1 = name := ih.1
    have hops := ih.2
    simp only [parts, List.nil_append] at hops
    simp only [parts, hname, List.append_assoc, List.cons_append, hops]

theorem AtLeast.mono {m n : Nat} {g : Grouping} (h : g.AtLeast n) (hmn : m ≤ n) : g.AtLeast m := by
  cases g with
  | name => trivial
  | join => exact Nat.le_trans hmn h

theorem atLeast_climbed (least : Nat) (left : Grouping) (ops : Operands)
    (hleft : left.AtLeast least) :
    (climbed least left ops).1.AtLeast least := by
  induction least, left, ops using climbed_induct with
  | nil least left => rwa [climbed_nil]
  | stop least left op name ops h => rwa [climbed_stop h]
  | join least left op name ops h _ ih =>
    rw [climbed_join h]
    exact ih h

/-- Operators of a level group to the left, and those of higher levels bind more tightly. -/
theorem grouped_climbed (least : Nat) (left : Grouping) (ops : Operands) (hleft : left.Grouped)
    (hops : ∀ p ∈ ops.head?, left.AtLeast p.1.level) : (climbed least left ops).1.Grouped := by
  induction least, left, ops using climbed_induct with
  | nil least left => rwa [climbed_nil]
  | stop least left op name ops h => rwa [climbed_stop h]
  | join least left op name ops h ih ih' =>
    rw [climbed_join h]
    refine ih' ⟨hleft, ih trivial fun _ _ => trivial, hops _ rfl, ?_⟩ fun p hp => ?_
    · exact atLeast_climbed _ _ _ trivial
    · exact Nat.le_of_lt_succ (level_climbed _ _ _ p hp)

/-- Climbing over the operands of a grouping builds the grouping. -/
theorem climbed_parts {least : Nat} {g : Grouping} (hg : g.Grouped) (hleast : g.AtLeast least)
    (ops : Operands) (hops : ∀ p ∈ ops.head?, g.AtLeast p.1.level) :
    climbed least (.name g.parts.1) (g.parts.2 ++ ops) = climbed least g ops := by
  induction g generalizing least ops with
  | name text => rfl
  | join op l r ihl ihr =>
    obtain ⟨hl, hr, hleft, hright⟩ := hg
    have hstop : climbed (op.level + 1) r ops = (r, ops) := by
      cases ops with
      | nil => exact climbed_nil ..
      | cons p ops => exact climbed_stop (Nat.lt_succ_of_le (hops p rfl))
    have hnext (p : Infix × List Char) (hp : p ∈ ops.head?) : r.AtLeast p.1.level :=
      hright.mono (Nat.le_succ_of_le (hops p hp))
    have hfirst : ∀ p ∈ ((op, r.parts.1) :: (r.parts.2 ++ ops)).head?, l.AtLeast p.1.level := by
      rintro p ⟨⟩
      exact hleft
    rw [parts, List.append_assoc, List.cons_append, ihl hl (hleft.mono hleast) _ hfirst,
      climbed_join hleast, ihr hr hright ops hnext, hstop]

/-- Precedence climbing builds the only grouping of the operands in which operators of a level group
to the left and those of higher levels bind more tightly. -/
theorem climbed_eq_iff {text : List Char} {ops : Operands} {g : Grouping} :
    climbed 1 (.name text) ops = (g, []) ↔ g.parts = (text, ops) ∧ g.Grouped := by
  constructor
  · intro h
    have hparts := parts_climbed 1 (.name text) ops
    have hgrouped := grouped_climbed 1 (.name text) ops trivial fun _ _ => trivial
    rw [h] at hparts hgrouped
    refine ⟨Prod.ext hparts.1 ?_, hgrouped⟩
    simpa [parts] using hparts.2
  · rintro ⟨hparts, hg⟩
    have hleast : g.AtLeast 1 := by
      cases g with
      | name => trivial
      | join op => exact op.level_pos
    have := climbed_parts hg hleast [] nofun
    rwa [List.append_nil, climbed_nil, hparts] at this

end Grouping

/-- An expression has a grouping: its operands are occurrences of the names, at whatever places and
with whatever numbers. -/
inductive Grouping.Describes : Grouping → Expr → Prop
  | name {text : List Char} {x : Identifier} (hx : x.name = String.ofList text) :
      Describes (.name text) (.identifier x)
  | binary {op : BinaryOp} {l r : Grouping} {span : Span} {left right : Expr}
    (hl : l.Describes left)
      (hr : r.Describes right) : Describes (.join (.binary op) l r) (.binary span op left right)
  | logical {op : LogicalOp} {l r : Grouping} {span : Span} {left right : Expr}
    (hl : l.Describes left)
      (hr : r.Describes right) : Describes (.join (.logical op) l r) (.logical span op left right)

end ScriptEngine
