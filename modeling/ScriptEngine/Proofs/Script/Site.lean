import ScriptEngine.Script.Ast

/-!
# Statements in bodies

All statements of a script, each with the statements around it in the same body, and what makes one
of them illegal: a jump that leads nowhere, a label that is taken, or a `return` outside of
functions.  A function starts afresh, for a jump never leaves a body.

## Main definitions

* `Site` : a statement and what surrounds it in its body.
* `Site.IsIllegal`, `AllLegal` : a statement that may not stand at its place, and that there is
  none.
* `Program.sites` : the statements of a script, those of its functions included.
-/

namespace ScriptEngine

/-! ### Kinds of statements -/

namespace Stmt

/-- Whether a statement is a loop. -/
def isLoop : Stmt → Bool
  | .while .. | .doWhile .. | .for .. | .forIn .. => true
  | _ => false

/-- Whether a statement is a `switch`. -/
def isSwitch : Stmt → Bool
  | .switch .. => true
  | _ => false

/-- The outermost label in front of a statement. -/
def label? : Stmt → Option String
  | .labeled _ label _ => some label
  | _ => none

/-- A statement without the labels in front of it. -/
def unlabelled : Stmt → Stmt
  | .labeled _ _ body => body.unlabelled
  | s => s

end Stmt

/-! ### Sites -/

/-- A statement with the statements of the same body around it, innermost first. -/
structure Site where
  /-- Whether the body is that of the script itself. -/
  inProgram : Bool
  around : List Stmt
  stmt : Stmt

namespace Site

/-- One of the statements around has a label. -/
def IsInside (x : Site) (label : String) : Prop :=
  ∃ s ∈ x.around, s.label? = some label

/-- A statement may not stand at its place: a `return` in a script, a jump without a label outside
of what it may leave or continue, a jump to a label that no statement around has, a `continue` to a
statement that is no loop, or a label that a statement around has already. -/
def IsIllegal (x : Site) : Prop :=
  match x.stmt with
  | .ret .. => x.inProgram = true
  | .brk _ none => ¬ ∃ s ∈ x.around, s.isLoop = true ∨ s.isSwitch = true
  | .cont _ none => ¬ ∃ s ∈ x.around, s.isLoop = true
  | .brk _ (some label) => ¬ x.IsInside label
  | .cont _ (some label) =>
    ¬ x.IsInside label ∨ ∃ s ∈ x.around, s.label? = some label ∧ s.unlabelled.isLoop = false
  | .labeled _ label _ => x.IsInside label
  | _ => False

instance (x : Site) (label : String) : Decidable (x.IsInside label) :=
  inferInstanceAs (Decidable (∃ s ∈ x.around, s.label? = some label))

instance : DecidablePred IsIllegal
  | ⟨inProgram, _, .ret ..⟩ => inferInstanceAs (Decidable (inProgram = true))
  | ⟨_, around, .brk _ none⟩ =>
    inferInstanceAs (Decidable (¬ ∃ s ∈ around, s.isLoop = true ∨ s.isSwitch = true))
  | ⟨_, around, .cont _ none⟩ => inferInstanceAs (Decidable (¬ ∃ s ∈ around, s.isLoop = true))
  | ⟨inProgram, around, .brk span (some label)⟩ =>
    inferInstanceAs (Decidable (¬ IsInside ⟨inProgram, around, .brk span (some label)⟩ label))
  | ⟨inProgram, around, .cont span (some label)⟩ =>
    inferInstanceAs (Decidable (¬ IsInside ⟨inProgram, around, .cont span (some label)⟩ label ∨
      ∃ s ∈ around, s.label? = some label ∧ s.unlabelled.isLoop = false))
  | ⟨inProgram, around, .labeled span label body⟩ =>
    inferInstanceAs (Decidable (IsInside ⟨inProgram, around, .labeled span label body⟩ label))
  | ⟨_, _, .expression ..⟩ | ⟨_, _, .block _⟩ | ⟨_, _, .empty _⟩ | ⟨_, _, .debugger _⟩
  | ⟨_, _, .conditional ..⟩ | ⟨_, _, .switch ..⟩ | ⟨_, _, .throw ..⟩ | ⟨_, _, .tryCatch ..⟩
  | ⟨_, _, .while ..⟩ | ⟨_, _, .doWhile ..⟩ | ⟨_, _, .for ..⟩ | ⟨_, _, .forIn ..⟩ | ⟨_, _, .with ..⟩
  | ⟨_, _, .declaration ..⟩ | ⟨_, _, .function _⟩ => inferInstanceAs (Decidable False)

end Site

/-- None of some statements is illegal. -/
def AllLegal (sites : List Site) : Prop :=
  ∀ x ∈ sites, ¬ x.IsIllegal

@[simp] theorem allLegal_nil : AllLegal [] :=
  nofun

@[simp] theorem allLegal_cons {x : Site} {sites : List Site} :
    AllLegal (x :: sites) ↔ ¬ x.IsIllegal ∧ AllLegal sites :=
  List.forall_mem_cons

@[simp] theorem allLegal_append {sites sites' : List Site} :
    AllLegal (sites ++ sites') ↔ AllLegal sites ∧ AllLegal sites' :=
  List.forall_mem_append

/-! ### All statements -/

mutual

/-- The statements of the functions in an expression. -/
def Expr.sites : Expr → List Site
  | .literal .. | .identifier _ | .this _ => []
  | .array _ elements => elementSites elements
  | .object _ properties => propertySites properties
  | .function f => f.sites
  | .unary _ _ argument => argument.sites
  | .update _ _ t _ => t.sites
  | .binary _ _ left right => left.sites ++ right.sites
  | .logical _ _ left right => left.sites ++ right.sites
  | .assign _ _ t value => t.sites ++ value.sites
  | .conditional _ test consequent alternate => test.sites ++ (consequent.sites ++ alternate.sites)
  | .call _ callee arguments => callee.sites ++ exprSites arguments
  | .construct _ callee arguments => callee.sites ++ exprSites arguments
  | .sequence _ expressions => exprSites expressions
  | .member m => m.sites
termination_by structural x => x

/-- The statements of the functions in several expressions. -/
def exprSites : List Expr → List Site
  | [] => []
  | e :: rest => e.sites ++ exprSites rest
termination_by structural x => x

/-- The statements of the functions in an expression that may be left out. -/
def optionSites : Option Expr → List Site
  | none => []
  | some e => e.sites
termination_by structural x => x

/-- The statements of the functions in the elements of an array. -/
def elementSites : List (Option Expr) → List Site
  | [] => []
  | none :: rest => elementSites rest
  | some e :: rest => e.sites ++ elementSites rest
termination_by structural x => x

/-- The statements of the functions in the properties of an object. -/
def propertySites : List Property → List Site
  | [] => []
  | .mk _ _ value :: rest => value.sites ++ propertySites rest
termination_by structural x => x

/-- The statements of the functions in a property reference. -/
def Member.sites : Member → List Site
  | .named _ object _ => object.sites
  | .computed _ object property => object.sites ++ property.sites
termination_by structural x => x

/-- The statements of the functions in what is assigned to. -/
def Target.sites : Target → List Site
  | .identifier _ => []
  | .member m => m.sites
termination_by structural x => x

/-- The statements of a function. -/
def Func.sites : Func → List Site
  | .mk _ _ _ _ _ _ _ body => stmtSites false [] body ++ declaredSites body
termination_by structural x => x

/-- The statements in a list, and those of the functions in their expressions. -/
def stmtSites (inProgram : Bool) (around : List Stmt) : List Stmt → List Site
  | [] => []
  | s :: rest => s.sites inProgram around ++ stmtSites inProgram around rest
termination_by structural x => x

/-- The statements of the functions in a declaration. -/
def declaratorSites : List Declarator → List Site
  | [] => []
  | .mk _ _ none :: rest => declaratorSites rest
  | .mk _ _ (some init) :: rest => init.sites ++ declaratorSites rest
termination_by structural x => x

/-- The statements in the clauses of a `switch`. -/
def clauseSites (inProgram : Bool) (around : List Stmt) : List SwitchClause → List Site
  | [] => []
  | .mk _ none body :: rest => stmtSites inProgram around body ++ clauseSites inProgram around rest
  | .mk _ (some test) body :: rest =>
    test.sites ++ (stmtSites inProgram around body ++ clauseSites inProgram around rest)
termination_by structural x => x

/-- The statements in a block. -/
def Block.sites (inProgram : Bool) (around : List Stmt) : Block → List Site
  | .mk _ body => stmtSites inProgram around body
termination_by structural x => x

/-- The statements in a `catch` clause. -/
def Handler.sites (inProgram : Bool) (around : List Stmt) : Handler → List Site
  | .mk _ _ body => body.sites inProgram around
termination_by structural x => x

/-- The statements of the functions in what comes first in the head of a `for` loop. -/
def ForInit.sites : ForInit → List Site
  | .nothing => []
  | .declaration _ ds => declaratorSites ds
  | .expression e => e.sites
termination_by structural x => x

/-- The statements of the functions in what the keys of a `for`-`in` loop are assigned to. -/
def ForInTarget.sites : ForInTarget → List Site
  | .declaration _ => []
  | .target t => t.sites
termination_by structural x => x

/-- A statement and those inside of it, and those of the functions in their expressions. -/
def Stmt.sites (inProgram : Bool) (around : List Stmt) : Stmt → List Site
  | .expression span e => ⟨inProgram, around, .expression span e⟩ :: e.sites
  | .block b => ⟨inProgram, around, .block b⟩ :: b.sites inProgram (.block b :: around)
  | .empty span => [⟨inProgram, around, .empty span⟩]
  | .debugger span => [⟨inProgram, around, .debugger span⟩]
  | .ret span argument => ⟨inProgram, around, .ret span argument⟩ :: optionSites argument
  | .brk span label => [⟨inProgram, around, .brk span label⟩]
  | .cont span label => [⟨inProgram, around, .cont span label⟩]
  | .labeled span label body =>
    ⟨inProgram, around, .labeled span label body⟩ ::
      body.sites inProgram (.labeled span label body :: around)
  | .conditional span test consequent none =>
    ⟨inProgram, around, .conditional span test consequent none⟩ :: (test.sites ++
      consequent.sites inProgram (.conditional span test consequent none :: around))
  | .conditional span test consequent (some alternate) =>
    ⟨inProgram, around, .conditional span test consequent (some alternate)⟩ :: (test.sites ++
      (consequent.sites inProgram (.conditional span test consequent (some alternate) :: around) ++
        alternate.sites inProgram (.conditional span test consequent (some alternate) :: around)))
  | .switch span discriminant clauses =>
    ⟨inProgram, around, .switch span discriminant clauses⟩ :: (discriminant.sites ++
      clauseSites inProgram (.switch span discriminant clauses :: around) clauses)
  | .throw span e => ⟨inProgram, around, .throw span e⟩ :: e.sites
  | .tryCatch span b none none =>
    ⟨inProgram, around, .tryCatch span b none none⟩ ::
      b.sites inProgram (.tryCatch span b none none :: around)
  | .tryCatch span b none (some f) =>
    ⟨inProgram, around, .tryCatch span b none (some f)⟩ ::
      (b.sites inProgram (.tryCatch span b none (some f) :: around) ++
        f.sites inProgram (.tryCatch span b none (some f) :: around))
  | .tryCatch span b (some h) none =>
    ⟨inProgram, around, .tryCatch span b (some h) none⟩ ::
      (b.sites inProgram (.tryCatch span b (some h) none :: around) ++
        h.sites inProgram (.tryCatch span b (some h) none :: around))
  | .tryCatch span b (some h) (some f) =>
    ⟨inProgram, around, .tryCatch span b (some h) (some f)⟩ ::
      (b.sites inProgram (.tryCatch span b (some h) (some f) :: around) ++
        (h.sites inProgram (.tryCatch span b (some h) (some f) :: around) ++
          f.sites inProgram (.tryCatch span b (some h) (some f) :: around)))
  | .while span test body =>
    ⟨inProgram, around, .while span test body⟩ :: (test.sites ++
      body.sites inProgram (.while span test body :: around))
  | .doWhile span test body =>
    ⟨inProgram, around, .doWhile span test body⟩ :: (test.sites ++
      body.sites inProgram (.doWhile span test body :: around))
  | .for span init test update body =>
    ⟨inProgram, around, .for span init test update body⟩ :: (init.sites ++
      (optionSites test ++ (optionSites update ++
        body.sites inProgram (.for span init test update body :: around))))
  | .forIn span left right body =>
    ⟨inProgram, around, .forIn span left right body⟩ :: (left.sites ++ (right.sites ++
      body.sites inProgram (.forIn span left right body :: around)))
  | .with span id object body =>
    ⟨inProgram, around, .with span id object body⟩ :: (object.sites ++
      body.sites inProgram (.with span id object body :: around))
  | .declaration span ds => ⟨inProgram, around, .declaration span ds⟩ :: declaratorSites ds
  | .function f => [⟨inProgram, around, .function f⟩]
termination_by structural x => x

/-- The statements of the functions that statements declare. -/
def declaredSites : List Stmt → List Site
  | [] => []
  | s :: rest => s.declaredSites ++ declaredSites rest
termination_by structural x => x

/-- The statements of the functions that a block declares. -/
def Block.declaredSites : Block → List Site
  | .mk _ body => ScriptEngine.declaredSites body
termination_by structural x => x

/-- The statements of the functions that the clauses of a `switch` declare. -/
def clauseDeclaredSites : List SwitchClause → List Site
  | [] => []
  | .mk _ _ body :: rest => declaredSites body ++ clauseDeclaredSites rest
termination_by structural x => x

/-- The statements of the functions that a statement declares.  A declaration without a name makes
no function, and no source has one. -/
def Stmt.declaredSites : Stmt → List Site
  | .function (.mk _ _ none _ _ _ _ _) => []
  | .function (.mk _ _ (some _) _ _ _ _ body) => stmtSites false [] body ++
    ScriptEngine.declaredSites body
  | .block b => b.declaredSites
  | .labeled _ _ body => body.declaredSites
  | .while _ _ body => body.declaredSites
  | .doWhile _ _ body => body.declaredSites
  | .with _ _ _ body => body.declaredSites
  | .conditional _ _ c none => c.declaredSites
  | .conditional _ _ c (some a) => c.declaredSites ++ a.declaredSites
  | .for _ _ _ _ body => body.declaredSites
  | .forIn _ _ _ body => body.declaredSites
  | .switch _ _ clauses => clauseDeclaredSites clauses
  | .tryCatch _ b none none => b.declaredSites
  | .tryCatch _ b none (some f) => b.declaredSites ++ f.declaredSites
  | .tryCatch _ b (some (.mk _ _ hb)) none => b.declaredSites ++ hb.declaredSites
  | .tryCatch _ b (some (.mk _ _ hb)) (some f) =>
    b.declaredSites ++ (hb.declaredSites ++ f.declaredSites)
  | .expression .. | .empty _ | .debugger _ | .ret .. | .brk .. | .cont .. | .throw ..
  | .declaration .. => []
termination_by structural x => x

end

/-- All statements of a script. -/
def Program.sites (p : Program) : List Site :=
  stmtSites true [] p.body ++ declaredSites p.body

end ScriptEngine
