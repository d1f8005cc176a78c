import ScriptEngine.Script.Ast

/-!
# Hoisting

The names and functions that a body declares are those of the statements that stand in it at any
depth, outside of nested functions.

## Main definitions

* `Stmt.parts` : the statements directly inside of a statement.
* `Stmt.Within` : a statement stands inside of another one.

## Main statements

* `mem_bodyVarNames`, `mem_bodyFunctions` : what a body declares.
-/

namespace ScriptEngine

/-! ### Statements in statements -/

/-- The statements of a clause of a `switch`. -/
def SwitchClause.body : SwitchClause → List Stmt
  | .mk _ _ body => body

/-- The statements of a `catch` clause. -/
def Handler.body : Handler → List Stmt
  | .mk _ _ b => b.body

namespace Stmt

/-- The statements directly inside of a statement.  Those of a function are not inside of its
declaration. -/
def parts : Stmt → List Stmt
  | .block b => b.body
  | .labeled _ _ s | .while _ _ s | .doWhile _ _ s | .with _ _ _ s | .for _ _ _ _ s | .forIn _
    _ _ s => [s]
  | .conditional _ _ c a => c :: a.toList
  | .switch _ _ clauses => clauses.flatMap SwitchClause.body
  | .tryCatch _ b h f => b.body ++ h.toList.flatMap Handler.body ++ f.toList.flatMap Block.body
  | .expression .. | .empty _ | .debugger _ | .ret .. | .brk .. | .cont .. | .throw ..
  | .declaration .. | .function _ => []

/-- The names that a statement itself declares with `var`. -/
def vars : Stmt → List String
  | .declaration _ ds => ds.map Declarator.name
  | .for _ (.declaration _ ds) _ _ _ => ds.map Declarator.name
  | .forIn _ (.declaration i) _ _ => [i.name]
  | _ => []

/-- A statement stands inside of another one at some depth, or is that one. -/
inductive Within : Stmt → Stmt → Prop
  | refl (s : Stmt) : Within s s
  | part {s t u : Stmt} (part : t ∈ s.parts) (within : Within u t) : Within u s

theorem sizeOf_lt_of_mem_parts {s t : Stmt} (h : t ∈ s.parts) : sizeOf t < sizeOf s := by
  have hblock {b : Block} (h : t ∈ b.body) : sizeOf t < sizeOf b := by
    obtain ⟨span, body⟩ := b
    have := List.sizeOf_lt_of_mem (show t ∈ body from h)
    simp only [Block.mk.sizeOf_spec]
    omega
  cases s with
  | block b =>
    have := hblock h
    simp only [Stmt.block.sizeOf_spec]
    omega
  | conditional span test c a =>
    simp only [parts, List.mem_cons, Option.mem_toList] at h
    simp only [Stmt.conditional.sizeOf_spec]
    rcases h with rfl | rfl
    · omega
    · simp only [Option.some.sizeOf_spec]
      omega
  | «switch» span d clauses =>
    obtain ⟨clause, hclause, ht⟩ := List.mem_flatMap.mp h
    obtain ⟨span', test, body⟩ := clause
    have := List.sizeOf_lt_of_mem hclause
    have := List.sizeOf_lt_of_mem (show t ∈ body from ht)
    simp only [Stmt.switch.sizeOf_spec, SwitchClause.mk.sizeOf_spec] at *
    omega
  | tryCatch span b c f =>
    simp only [parts, List.mem_append, List.mem_flatMap, Option.mem_toList] at h
    rcases h with (h | ⟨⟨span', param, hb⟩, rfl, h⟩) | ⟨f, rfl, h⟩
    · have := hblock h
      simp only [Stmt.tryCatch.sizeOf_spec]
      omega
    · have := hblock (show t ∈ hb.body from h)
      simp only [Stmt.tryCatch.sizeOf_spec, Option.some.sizeOf_spec, Handler.mk.sizeOf_spec]
      omega
    · have := hblock h
      simp only [Stmt.tryCatch.sizeOf_spec, Option.some.sizeOf_spec]
      omega
  | labeled | «while» | doWhile | «with» | «for» | forIn =>
    cases List.mem_singleton.mp h
    simp
    try omega
  | expression | empty | debugger | ret | brk | cont | throw | declaration | function => cases h

/-- What holds of a statement if it holds of those inside of it holds of all statements. -/
theorem parts_induction {P : Stmt → Prop} (h : ∀ s, (∀ t ∈ s.parts, P t) → P s) (s : Stmt) : P s :=
  h s fun t _ => parts_induction h t
termination_by sizeOf s
decreasing_by exact sizeOf_lt_of_mem_parts ‹_›

end Stmt

/-! ### Declarations -/

theorem bodyVarNames_eq (body : List Stmt) : bodyVarNames body = body.flatMap Stmt.varNames := by
  induction body with
  | nil => rfl
  | cons s rest ih => rw [bodyVarNames, ih, List.flatMap_cons]

theorem clausesVarNames_eq (clauses : List SwitchClause) :
    clausesVarNames clauses = (clauses.flatMap SwitchClause.body).flatMap Stmt.varNames := by
  induction clauses with
  | nil => rfl
  | cons c rest ih =>
    obtain ⟨span, test, body⟩ := c
    rw [clausesVarNames, ih, bodyVarNames_eq, List.flatMap_cons, List.flatMap_append]
    rfl

theorem blockVarNames_eq (b : Block) : b.varNames = b.body.flatMap Stmt.varNames := by
  obtain ⟨span, body⟩ := b
  rw [Block.varNames, bodyVarNames_eq]
  rfl

theorem Stmt.varNames_eq (s : Stmt) : s.varNames = s.vars ++ s.parts.flatMap Stmt.varNames := by
  cases s with
  | conditional span test c a => cases a <;> simp [varNames, vars, parts]
  | «for» span init test update body => cases init <;> simp [varNames, vars, parts]
  | forIn span left right body => cases left <;> simp [varNames, vars, parts]
  | tryCatch span b c f =>
    rcases c with _ | ⟨span', param, hb⟩ <;> cases f <;>
      simp [varNames, vars, parts, blockVarNames_eq, Handler.body]
  | _ => simp [varNames, vars, parts, blockVarNames_eq, clausesVarNames_eq]

theorem bodyFunctions_eq (body : List Stmt) : bodyFunctions body = body.flatMap Stmt.functions := by
  induction body with
  | nil => rfl
  | cons s rest ih => rw [bodyFunctions, ih, List.flatMap_cons]

theorem clausesFunctions_eq (clauses : List SwitchClause) :
    clausesFunctions clauses = (clauses.flatMap SwitchClause.body).flatMap Stmt.functions := by
  induction clauses with
  | nil => rfl
  | cons c rest ih =>
    obtain ⟨span, test, body⟩ := c
    rw [clausesFunctions, ih, bodyFunctions_eq, List.flatMap_cons, List.flatMap_append]
    rfl

theorem blockFunctions_eq (b : Block) : b.functions = b.body.flatMap Stmt.functions := by
  obtain ⟨span, body⟩ := b
  rw [Block.functions, bodyFunctions_eq]
  rfl

theorem Stmt.mem_functions_iff {f : Func} (s : Stmt) :
    f ∈ s.functions ↔ s = .function f ∨ ∃ t ∈ s.parts, f ∈ t.functions := by
  rw [← List.mem_flatMap]
  cases s with
  | conditional span test c a => cases a <;> simp [functions, parts]
  | tryCatch span b c f =>
    rcases c with _ | ⟨span', param, hb⟩ <;> cases f <;>
      simp [functions, parts, blockFunctions_eq, Handler.body]
  | function g => simp [functions, parts, eq_comm]
  | _ => simp [functions, parts, blockFunctions_eq, clausesFunctions_eq]

theorem Stmt.mem_varNames {x : String} (s : Stmt) :
    x ∈ s.varNames ↔ ∃ t : Stmt, t.Within s ∧ x ∈ t.vars := by
  constructor
  · induction s using Stmt.parts_induction with
    | h s ih =>
      rw [Stmt.varNames_eq, List.mem_append, List.mem_flatMap]
      rintro (hx | ⟨t, ht, hx⟩)
      · exact ⟨s, .refl s, hx⟩
      · obtain ⟨u, hu, hx⟩ := ih t ht hx
        exact ⟨u, .part ht hu, hx⟩
  · rintro ⟨t, ht, hx⟩
    induction ht with
    | refl s =>
      rw [Stmt.varNames_eq]
      exact List.mem_append_left _ hx
    | part hpart _ ih =>
      rw [Stmt.varNames_eq]
      exact List.mem_append_right _ (List.mem_flatMap.mpr ⟨_, hpart, ih hx⟩)

theorem Stmt.mem_functions {f : Func} (s : Stmt) :
    f ∈ s.functions ↔ (Stmt.function f).Within s := by
  constructor
  · induction s using Stmt.parts_induction with
    | h s ih =>
      rw [Stmt.mem_functions_iff]
      rintro (rfl | ⟨t, ht, hf⟩)
      · exact .refl _
      · exact .part ht (ih t ht hf)
  · intro h
    generalize hg : Stmt.function f = g at h
    induction h with
    | refl s => exact (Stmt.mem_functions_iff s).mpr (.inl hg.symm)
    | part hpart _ ih => exact (Stmt.mem_functions_iff _).mpr (.inr ⟨_, hpart, ih hg⟩)

/-- A body has the names that the statements in it declare with `var`. -/
theorem mem_bodyVarNames {x : String} {body : List Stmt} :
    x ∈ bodyVarNames body ↔ ∃ s ∈ body, ∃ t : Stmt, t.Within s ∧ x ∈ t.vars := by
  simp only [bodyVarNames_eq, List.mem_flatMap, Stmt.mem_varNames]

/-- A body has the functions whose declarations stand in it. -/
theorem mem_bodyFunctions {f : Func} {body : List Stmt} :
    f ∈ bodyFunctions body ↔ ∃ s ∈ body, (Stmt.function f).Within s := by
  simp only [bodyFunctions_eq, List.mem_flatMap, Stmt.mem_functions]

end ScriptEngine
