import ScriptEngine.Proofs.Script.Collecting
import ScriptEngine.Proofs.Script.Hoisting
import ScriptEngine.Proofs.Script.Occurrence

/-!
# Spelling of names

The names that a script mentions are those of the identifier tokens in its source, so that each of
them begins as an identifier does.  Names that the analysis makes up begin with a character that no
identifier begins with.

## Main definitions

* `IsName` : a text begins as an identifier does.
* `Node.IsNamed` : all identifiers in a node do.
* `Occurrence.Mentions` : what an occurrence is called.

## Main statements

* `Program.isNamed_of_parse` : the identifiers in a script that was parsed begin as identifiers do.
* `Node.IsNamed.occurrences`, `Node.IsNamed.varNames`, `Node.IsNamed.functions` : so do the names
  that occur in a node and those that it declares.
-/

namespace ScriptEngine

/-- A text begins as an identifier does. -/
def IsName (x : String) : Prop :=
  ∃ c cs, x = String.ofList (c :: cs) ∧ Text.isIdentifierStart c = true

/-- The identifier tokens of a source begin as identifiers do. -/
theorem Tree.Parsed.isName {source text : List Char} {span : Span}
    (h : (Tree.leaf .identifier span text).Parsed source) : IsName (String.ofList text) := by
  cases h with
  | leaf _ spells =>
    obtain ⟨cs, rest, hscan⟩ := spells
    rw [Token.scan?, Token.scanIdentifier] at hscan
    split at hscan
    · cases hscan
    · cases cs with
      | nil => cases hscan
      | cons c cs =>
        rw [Token.scanName] at hscan
        split at hscan
        · next hc =>
          cases hscan
          exact ⟨c, Token.word cs, rfl, hc⟩
        · cases hscan

/-! ### Identifiers -/

/-- The identifiers in a node begin as identifiers do. -/
def Node.IsNamed (n : Node) : Prop :=
  ∀ i, n.Contains (.identifier i) → IsName i.name

namespace Node.IsNamed

variable {n m : Node}

theorem of_contains (h : n.IsNamed) (hm : n.Contains m) : m.IsNamed := by
  induction hm with
  | self => exact h
  | part mem _ ih => exact ih fun i hi => h i (.part mem hi)

theorem part (h : n.IsNamed) (hm : m ∈ n.parts) : m.IsNamed :=
  h.of_contains (.part hm (.self m))

theorem intro (hn : ∀ i, n ≠ .identifier i) (h : ∀ m ∈ n.parts, m.IsNamed) : n.IsNamed := by
  intro i hi
  cases hi with
  | self => exact absurd rfl (hn i)
  | part mem hi => exact h _ mem i hi

end Node.IsNamed

theorem Build.establishes_isNamed (source : List Char) :
    Establishes source (Tree.Parsed source) fun _ n => n.IsNamed where
  part h t ht := h.of_contains (.child ht (.self t))
  identifier id h i hi := by
    cases hi with
    | self => exact h.isName
    | part mem _ => cases mem
  node hplain hparts := .intro (fun i hi => by rw [hi] at hplain; exact hplain) hparts
  function _ _ _ _ hnames hbody := by
    refine .intro (fun i hi => by cases hi) fun m hm => ?_
    simp only [Node.parts, List.mem_append, List.mem_map, List.mem_singleton] at hm
    rcases hm with ⟨i, hi, rfl⟩ | ⟨i, hi, rfl⟩ | rfl
    · exact hnames i (List.mem_append_left _ hi)
    · exact hnames i (List.mem_append_right _ hi)
    · exact .intro (fun i hi => by cases hi) (List.forall_mem_map.mpr hbody)

/-- The identifiers in a script that was parsed begin as identifiers do. -/
theorem Program.isNamed_of_parse {source : String} {p : Program}
    (h : Program.parse source = .ok p) :
    (Node.program p).IsNamed :=
  Program.establishes_of_parse (Build.establishes_isNamed source.toList) (fun _ ht => ht) h

/-! ### Occurrences -/

/-- The name of an occurrence, if it has one, begins as an identifier does. -/
def Occurrence.IsNamed (o : Occurrence) : Prop :=
  match o.mention with
  | .identifier i | .parameter i | .declared i => IsName i.name
  | .holder _ => True

theorem exprOccurrences_eq (scopes : List Scope) (es : List Expr) :
    exprOccurrences scopes es = es.flatMap (Expr.occurrences scopes) := by
  induction es with
  | nil => rfl
  | cons e es ih => rw [exprOccurrences, ih, List.flatMap_cons]

theorem elementOccurrences_eq (scopes : List Scope) (es : List (Option Expr)) :
    elementOccurrences scopes es = (es.filterMap id).flatMap (Expr.occurrences scopes) := by
  induction es with
  | nil => rfl
  | cons e es ih =>
    cases e with
    | none => exact ih
    | some e => exact congrArg (e.occurrences scopes ++ ·) ih

theorem stmtOccurrences_eq (scopes : List Scope) (ss : List Stmt) :
    stmtOccurrences scopes ss = ss.flatMap (Stmt.occurrences scopes) := by
  induction ss with
  | nil => rfl
  | cons s ss ih => rw [stmtOccurrences, ih, List.flatMap_cons]

namespace Node

/-- The occurrences in a node, which has some scopes around it. -/
def occurrences (scopes : List Scope) : Node → List Occurrence
  | .program p => stmtOccurrences scopes p.body
  | .function f => f.identifier?.toList.map (⟨.declared ·, scopes⟩) ++ f.occurrences scopes
  | .body _ ss => stmtOccurrences scopes ss
  | .statement s => s.occurrences scopes
  | .block b => b.occurrences scopes
  | .handler h => h.occurrences scopes
  | .clause (.mk _ test ss) => optionOccurrences scopes test ++ stmtOccurrences scopes ss
  | .declaration _ ds => declaratorOccurrences scopes ds
  | .declarator (.mk _ x init) => ⟨.identifier x, scopes⟩ :: optionOccurrences scopes init
  | .expression e => e.occurrences scopes
  | .property (.mk _ _ value) => value.occurrences scopes
  | .identifier i => [⟨.identifier i, scopes⟩]

theorem propertyOccurrences_eq (scopes : List Scope) (ps : List Property) :
    propertyOccurrences scopes ps = ps.flatMap fun p => (Node.property p).occurrences scopes := by
  induction ps with
  | nil => rfl
  | cons p ps ih =>
    obtain ⟨span, key, value⟩ := p
    rw [propertyOccurrences, ih, List.flatMap_cons]
    rfl

theorem declaratorOccurrences_eq (scopes : List Scope) (ds : List Declarator) :
    declaratorOccurrences scopes ds = ds.flatMap fun d =>
      (Node.declarator d).occurrences scopes := by
  induction ds with
  | nil => rfl
  | cons d ds ih =>
    obtain ⟨span, name, _ | init⟩ := d <;> rw [declaratorOccurrences, ih, List.flatMap_cons] <;> rfl

theorem clauseOccurrences_eq (scopes : List Scope) (cs : List SwitchClause) :
    clauseOccurrences scopes cs = cs.flatMap fun c => (Node.clause c).occurrences scopes := by
  induction cs with
  | nil => rfl
  | cons c cs ih =>
    obtain ⟨span, _ | test, body⟩ := c
    · rw [clauseOccurrences, ih, List.flatMap_cons]
      rfl
    · rw [clauseOccurrences, ih, List.flatMap_cons, occurrences, optionOccurrences,
        List.append_assoc]

theorem Target.occurrences_toExpr (t : Target) (scopes : List Scope) :
    t.toExpr.occurrences scopes = t.occurrences scopes := by
  cases t <;> rfl

theorem flatMap_map_occurrences {α : Type} (scopes : List Scope) (g : α → Node) (l : List α) :
    (l.map g).flatMap (occurrences scopes) = l.flatMap fun x => (g x).occurrences scopes :=
  List.flatMap_map ..

theorem occurrences_option (scopes : List Scope) (e : Option Expr) :
    (e.toList.map expression).flatMap (occurrences scopes) = optionOccurrences scopes e := by
  cases e <;> simp [occurrences, optionOccurrences]

theorem occurrences_stmts (scopes : List Scope) (ss : List Stmt) :
    (ss.map statement).flatMap (occurrences scopes) = stmtOccurrences scopes ss := by
  rw [stmtOccurrences_eq, flatMap_map_occurrences]
  rfl

theorem occurrences_block (scopes : List Scope) (b : Block) :
    (b.body.map statement).flatMap (occurrences scopes) = b.occurrences scopes := by
  obtain ⟨span, body⟩ := b
  exact occurrences_stmts scopes body

/-- What occurs in an expression occurs in its parts. -/
theorem occurrences_expression (scopes : List Scope) {e : Expr} (h : ∀ f, e ≠ .function f) :
    e.occurrences scopes = e.nodes.flatMap (occurrences scopes) := by
  cases e with
  | function f => exact absurd rfl (h f)
  | array =>
    simp [Expr.nodes, Expr.occurrences, elementOccurrences_eq, flatMap_map_occurrences, occurrences]
  | object => simp [Expr.nodes, Expr.occurrences, propertyOccurrences_eq, flatMap_map_occurrences]
  | call | construct | sequence =>
    simp [Expr.nodes, Expr.occurrences, exprOccurrences_eq, flatMap_map_occurrences, occurrences]
  | member m => cases m <;> simp [Expr.nodes, Expr.occurrences, Member.occurrences, occurrences]
  | literal | this | identifier | unary | binary | logical | conditional =>
    simp [Expr.nodes, Expr.occurrences, occurrences]
  | update | assign => simp [Expr.nodes, Expr.occurrences, occurrences, Target.occurrences_toExpr]

/-- What occurs in a statement that opens no scope occurs in its parts. -/
theorem occurrences_statement (scopes : List Scope) {s : Stmt} (hfunction : ∀ f, s ≠ .function f)
    (hwith : ∀ span id object body, s ≠ .with span id object body) {o : Occurrence} :
    o ∈ s.occurrences scopes ↔ o ∈ s.nodes.flatMap (occurrences scopes) := by
  cases s with
  | function f => exact absurd rfl (hfunction f)
  | «with» span id object body => exact absurd rfl (hwith span id object body)
  | ret _ e => cases e <;> simp [Stmt.nodes, Stmt.occurrences, occurrences]
  | conditional _ _ _ alternate =>
    cases alternate <;> simp [Stmt.nodes, Stmt.occurrences, occurrences]
  | «switch» =>
    simp [Stmt.nodes, Stmt.occurrences, clauseOccurrences_eq, flatMap_map_occurrences, occurrences]
  | tryCatch _ _ h f => cases h <;> cases f <;> simp [Stmt.nodes, Stmt.occurrences, occurrences]
  | «for» _ init =>
    cases init <;> simp [Stmt.nodes, Stmt.occurrences, ForInit.nodes, ForInit.occurrences,
      List.flatMap_append, occurrences_option, occurrences]
  | forIn _ left =>
    cases left <;> simp [Stmt.nodes, Stmt.occurrences, ForInTarget.node, ForInTarget.occurrences,
      occurrences, Target.occurrences_toExpr]
  | doWhile => simp [Stmt.nodes, Stmt.occurrences, occurrences, or_comm]
  | expression | block | empty | debugger | brk | cont | labeled | throw | «while» | declaration =>
    simp [Stmt.nodes, Stmt.occurrences, occurrences]

/-- The names that occur in a node, whatever the scopes around it, begin as identifiers do. -/
def OccursNamed (n : Node) : Prop :=
  ∀ scopes, ∀ o ∈ n.occurrences scopes, o.IsNamed

theorem OccursNamed.identifier {i : Identifier} (h : (Node.identifier i).OccursNamed) :
    IsName i.name :=
  h [] ⟨.identifier i, []⟩ List.mem_cons_self

/-- The names that occur in the parts of a plain node are all that occur in it. -/
theorem OccursNamed.of_parts {n : Node} (hplain : n.IsPlain) (h : ∀ m ∈ n.parts, m.OccursNamed) :
    n.OccursNamed := by
  have hparts (scopes) : ∀ o ∈ n.parts.flatMap (occurrences scopes), o.IsNamed := fun o ho => by
    obtain ⟨m, hm, ho⟩ := List.mem_flatMap.mp ho
    exact h m hm scopes o ho
  intro scopes o ho
  cases n with
  | function | identifier => exact hplain.elim
  | program p | body span ss =>
    refine hparts scopes o ?_
    rwa [parts, occurrences_stmts]
  | statement s =>
    by_cases hfunction : ∃ f, s = .function f
    · obtain ⟨f, rfl⟩ := hfunction
      have hf := h (.function f) List.mem_cons_self
      rcases List.mem_append.mp ho with ho | ho
      · refine hf scopes o (List.mem_append_left _ ?_)
        obtain ⟨_, _, _ | i, _, _, _, _, _⟩ := f
        · cases ho
        · exact ho
      · exact hf _ o (List.mem_append_right _ ho)
    · by_cases hwith : ∃ span id object body, s = .with span id object body
      · obtain ⟨span, id, object, body, rfl⟩ := hwith
        rcases List.mem_append.mp ho with ho | ho
        · exact h (.expression object) List.mem_cons_self scopes o ho
        · rcases List.mem_cons.mp ho with rfl | ho
          · trivial
          · exact h (.statement body) (by simp [parts, Stmt.nodes]) _ o ho
      · push Not at hfunction hwith
        exact hparts scopes o ((occurrences_statement scopes hfunction hwith).mp ho)
  | block b =>
    refine hparts scopes o ?_
    rwa [parts, occurrences_block]
  | handler c =>
    obtain ⟨span, param, b⟩ := c
    rcases List.mem_cons.mp ho with rfl | ho
    · exact (h (.identifier param) List.mem_cons_self).identifier
    · exact h (.block b) (by simp [parts]) _ o ho
  | clause c =>
    obtain ⟨span, test, ss⟩ := c
    refine hparts scopes o ?_
    rwa [parts, List.flatMap_append, occurrences_option, occurrences_stmts]
  | declaration span ds =>
    refine hparts scopes o ?_
    rwa [parts, flatMap_map_occurrences, ← declaratorOccurrences_eq]
  | declarator d =>
    obtain ⟨span, x, init⟩ := d
    refine hparts scopes o ?_
    rwa [parts, List.flatMap_cons, occurrences_option]
  | expression e =>
    by_cases hfunction : ∃ f, e = .function f
    · obtain ⟨f, rfl⟩ := hfunction
      exact h (.function f) List.mem_cons_self scopes o (List.mem_append_right _ ho)
    · push Not at hfunction
      refine hparts scopes o ?_
      rwa [parts, ← occurrences_expression scopes hfunction]
  | property p =>
    obtain ⟨span, key, value⟩ := p
    exact h (.expression value) List.mem_cons_self scopes o ho

end Node

theorem Build.establishes_occursNamed (source : List Char) :
    Establishes source (Tree.Parsed source) fun _ n => n.OccursNamed where
  part h t ht := h.of_contains (.child ht (.self t))
  identifier id h scopes o ho := by
    obtain rfl := List.mem_singleton.mp ho
    exact h.isName
  node hplain hparts := .of_parts hplain hparts
  function {_ f _ _ _ _} _ _ _ _ hnames hbody scopes o ho := by
    rcases List.mem_append.mp ho with ho | ho
    · obtain ⟨i, hi, rfl⟩ := List.mem_map.mp ho
      exact (hnames i (List.mem_append_left _ hi)).identifier
    · obtain ⟨span, id, name, params, strict, isExpression, bodySpan, body⟩ := f
      rw [Func.occurrences, stmtOccurrences_eq] at ho
      obtain ⟨s, hs, ho⟩ := List.mem_flatMap.mp ho
      exact hbody s hs _ o ho

/-- What a script that was parsed mentions begins as an identifier does. -/
theorem Program.isName_of_parse {source : String} {p : Program} (h : Program.parse source = .ok p) :
    ∀ o ∈ p.occurrences, o.IsNamed :=
  Program.establishes_of_parse (Build.establishes_occursNamed source.toList) (fun _ ht => ht) h []

/-! ### Declarations -/

namespace Node

/-- The names that a statement itself declares are those of identifiers in it. -/
theorem contains_of_mem_vars {s : Stmt} {x : String} (h : x ∈ s.vars) :
    ∃ i, i.name = x ∧ (Node.statement s).Contains (.identifier i) := by
  have declared {span : Span} {ds : List Declarator} (h : x ∈ ds.map Declarator.name) :
      ∃ i, i.name = x ∧ (Node.declaration span ds).Contains (.identifier i) := by
    obtain ⟨⟨dspan, i, init⟩, hd, rfl⟩ := List.mem_map.mp h
    exact ⟨i, rfl, .part (List.mem_map_of_mem hd) (.of_mem (m := .identifier i) List.mem_cons_self)⟩
  unfold Stmt.vars at h
  split at h
  · next span ds =>
    obtain ⟨i, hi, hcontains⟩ := declared h
    exact ⟨i, hi, .part (m := .declaration span ds) (by simp [parts, Stmt.nodes]) hcontains⟩
  · next span ds _ _ _ =>
    obtain ⟨i, hi, hcontains⟩ := declared h
    exact ⟨i, hi, .part (m := .declaration span ds)
      (by simp [parts, Stmt.nodes, ForInit.nodes]) hcontains⟩
  · next i _ _ =>
    obtain rfl := List.mem_singleton.mp h
    exact ⟨i, rfl, .of_mem (by simp [parts, Stmt.nodes, ForInTarget.node])⟩
  · cases h

/-- Statements directly inside of a statement are nodes in it. -/
theorem contains_of_mem_parts {s t : Stmt} (h : t ∈ s.parts) :
    (Node.statement s).Contains (.statement t) := by
  have inBlock {b : Block} (hb : .block b ∈ s.nodes) (ht : t ∈ b.body) :
      (Node.statement s).Contains (.statement t) := .part hb (.of_mem (List.mem_map_of_mem ht))
  cases s with
  | block b => exact inBlock (by simp [Stmt.nodes]) h
  | labeled | «while» | doWhile | «with» | «for» | forIn =>
    obtain rfl := List.mem_singleton.mp h
    exact .of_mem (by simp [parts, Stmt.nodes])
  | conditional span test c a =>
    refine .of_mem ?_
    simp only [Stmt.parts, List.mem_cons, Option.mem_toList] at h
    rcases h with rfl | rfl <;> simp [parts, Stmt.nodes]
  | «switch» span d clauses =>
    obtain ⟨⟨cspan, test, body⟩, hclause, ht⟩ := List.mem_flatMap.mp h
    refine .part (m := .clause (.mk cspan test body)) ?_ (.of_mem ?_)
    · exact List.mem_cons_of_mem _ (List.mem_map_of_mem hclause)
    · exact List.mem_append_right _ (List.mem_map_of_mem ht)
  | tryCatch span b c f =>
    simp only [Stmt.parts, List.mem_append, List.mem_flatMap, Option.mem_toList] at h
    rcases h with (ht | ⟨⟨hspan, param, hb⟩, rfl, ht⟩) | ⟨f, rfl, ht⟩
    · exact inBlock (by simp [Stmt.nodes]) ht
    · refine .part (m := .handler (.mk hspan param hb)) (by simp [parts, Stmt.nodes]) ?_
      exact .part (m := .block hb) (by simp [parts]) (.of_mem (List.mem_map_of_mem ht))
    · exact inBlock (by simp [Stmt.nodes]) ht
  | expression | empty | debugger | ret | brk | cont | throw | declaration | function => cases h

theorem contains_of_within {s t : Stmt} (h : t.Within s) :
    (Node.statement s).Contains (.statement t) := by
  induction h with
  | refl s => exact .self _
  | part hpart _ ih => exact (contains_of_mem_parts hpart).trans ih

namespace IsNamed

variable {span : Span} {body : List Stmt}

/-- The variables that a body declares are called as identifiers are. -/
theorem varNames (h : (Node.body span body).IsNamed) {x : String} (hx : x ∈ bodyVarNames body) :
    IsName x := by
  rw [bodyVarNames_eq, List.mem_flatMap] at hx
  obtain ⟨s, hs, hx⟩ := hx
  obtain ⟨t, ht, hx⟩ := (Stmt.mem_varNames s).mp hx
  obtain ⟨i, rfl, hi⟩ := contains_of_mem_vars hx
  exact h i (.part (List.mem_map_of_mem hs) ((contains_of_within ht).trans hi))

/-- The functions that a body declares are called as identifiers are, if they have a name. -/
theorem functions (h : (Node.body span body).IsNamed) {f : Func} (hf : f ∈ bodyFunctions body) :
    (Node.function f).IsNamed := by
  rw [bodyFunctions_eq, List.mem_flatMap] at hf
  obtain ⟨s, hs, hf⟩ := hf
  have hwithin := contains_of_within ((Stmt.mem_functions s).mp hf)
  exact h.of_contains (.part (List.mem_map_of_mem hs) (hwithin.trans (.of_mem List.mem_cons_self)))

end IsNamed

/-- The name of a function is that of its identifier, if it has one. -/
theorem IsNamed.name {f : Func} (h : (Node.function f).IsNamed) : f.name = "" ∨ IsName f.name := by
  unfold Func.name
  cases hi : f.identifier? with
  | none => exact .inl rfl
  | some i => exact .inr (h i (.of_mem (by simp [parts, hi])))

end Node

end ScriptEngine
