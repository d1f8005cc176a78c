import ScriptEngine.Proofs.Grammar.Fuel
import ScriptEngine.Proofs.Script.Building

/-!
# Parsing a source

A source text either does not follow the grammar, or describes a script, or breaks one of the few
rules that the grammar leaves to the building of the script.  Whatever is cut out of the source on
the way lies between two characters of it.

## Main definitions

* `Tree.Sliced` : the texts that building cuts out of a source for one tree.

## Main statements

* `Tree.Parsed.sliced` : the texts that building cuts out of a source are there.
* `Program.parse_decides` : what becomes of a source.
-/

namespace ScriptEngine

/-! ### Texts without their marks -/

namespace Source

/-- A text between two marks of one byte each. -/
theorem covers_between {a b : Char} (ha : a.utf8Size = 1) (hb : b.utf8Size = 1) (body : List Char) :
    Covers (a :: (body ++ [b])) ⟨1, byteSize (a :: (body ++ [b])) - 1⟩ body :=
  ⟨[a], [b], by simp, by simp [byteSize_cons, byteSize_append, ha, hb, Nat.add_comm]⟩

end Source

theorem slash_not_mem_word (cs : List Char) : '/' ∉ Token.word cs := by
  intro h
  have := List.mem_takeWhile_imp h
  revert this
  decide

/-! ### What is cut out -/

/-- The texts that building cuts out of a source for one tree: the text of the tree itself, the
inside of a string literal, the two parts of a regular expression, and the inside of a statement
with a quote at both ends, which is searched for that quote and compared with a directive. -/
structure Tree.Sliced (source : List Char) (t : Tree) : Prop where
  whole : Source.Covers source t.span (Source.slice source t.span)
  leaf : ∀ token span text, t = .leaf token span text → Source.slice source span = text
  string : ∀ span text, t = .leaf .stringLiteral span text → ∃ body,
    Source.Covers text ⟨1, byteSize text - 1⟩ body ∧
      stringLiteralValue text = String.ofList (decodeEscapes body)
  regularExpression : ∀ span text, t = .leaf .regularExpressionLiteral span text →
    ∃ slash pattern flags, Source.Covers text ⟨1, slash⟩ pattern ∧
      Source.Covers text ⟨slash, slash + 1⟩ ['/'] ∧ '/' ∉ flags ∧
      Source.Covers text ⟨slash + 1, byteSize text⟩ flags ∧
      Build.leaf .regularExpressionLiteral span text =
        pure (.literal span (.regularExpression (String.ofList pattern) (String.ofList flags)))
  directive : ∀ span children q inside, t = .node .expressionStatement span children →
    directiveText (Source.slice source span) = q :: inside → (q = '"' ∨ q = '\'') →
      inside.getLast? = some q →
        Source.Covers (directiveText (Source.slice source span))
          ⟨1, byteSize (directiveText (Source.slice source span)) - 1⟩ inside.dropLast

theorem Tree.Parsed.covers {source : List Char} {t : Tree} (h : t.Parsed source) :
    ∃ text, Source.Covers source t.span text := by
  cases h with
  | leaf covers _ => exact ⟨_, covers⟩
  | node covers _ _ => exact ⟨_, covers⟩
  | finish covers => exact ⟨_, covers⟩

/-- A regular expression is cut at its last slash. -/
theorem Build.leaf_regularExpression {span : Span} {body flags : List Char} (hflags : '/' ∉ flags) :
    Build.leaf .regularExpressionLiteral span ('/' :: (body ++ '/' :: flags)) =
      pure (.literal span (.regularExpression (String.ofList body) (String.ofList flags))) := by
  have htake : (('/' :: (body ++ '/' :: flags)).reverse.takeWhile (· != '/')).reverse = flags := by
    have hreverse : ('/' :: (body ++ '/' :: flags)).reverse = flags.reverse ++
        '/' :: ('/' :: body).reverse := by
      simp
    have hall : ∀ c ∈ flags.reverse, (c != '/') = true := by
      intro c hc
      simp only [bne_iff_ne]
      exact fun h => hflags (h ▸ List.mem_reverse.mp hc)
    rw [hreverse, List.takeWhile_append_of_pos hall]
    simp
  simp only [Build.leaf, htake]
  have hlength : ('/' :: (body ++ '/' :: flags)).length - flags.length - 2 = body.length := by
    simp
    omega
  rw [hlength]
  simp

/-- The texts that building cuts out of a source are there. -/
theorem Tree.Parsed.sliced {source : List Char} {t : Tree} (h : t.Parsed source) :
    t.Sliced source where
  whole := by
    obtain ⟨text, hcovers⟩ := h.covers
    rw [hcovers.slice]
    exact hcovers
  leaf := by
    rintro token span text rfl
    cases h with
    | leaf covers _ => exact covers.slice
  string := by
    rintro span text rfl
    cases h with
    | leaf _ spells =>
      obtain ⟨cs, rest, hscan⟩ := spells
      obtain ⟨-, q, body, hq, rfl⟩ := Token.of_scanString hscan
      refine ⟨body, ?_, by simp [stringLiteralValue]⟩
      rcases hq with rfl | rfl <;> exact Source.covers_between rfl rfl body
  regularExpression := by
    rintro span text rfl
    cases h with
    | leaf _ spells =>
      obtain ⟨cs, rest, hscan⟩ := spells
      obtain ⟨-, body, flags, rfl, hword⟩ := Token.of_scanRegularExpression hscan
      have hflags : '/' ∉ flags := hword ▸ slash_not_mem_word flags
      have hslash : '/'.utf8Size = 1 := rfl
      have hsize : byteSize ('/' :: (body ++ '/' :: flags)) = 1 + byteSize body + 1 +
          byteSize flags := by
        simp only [byteSize_cons, byteSize_append, hslash]
        omega
      refine ⟨1 + byteSize body, body, flags, ⟨['/'], '/' :: flags, by simp, rfl⟩,
        ⟨'/' :: body, flags, by simp, ?_⟩, hflags, ⟨'/' :: (body ++ ['/']), [], by simp, ?_⟩,
        Build.leaf_regularExpression hflags⟩
      · rw [byteSize_cons, hslash]
        rfl
      · rw [hsize, byteSize_cons, byteSize_append, hslash, ← Nat.add_assoc]
        rfl
  directive := by
    rintro span children q inside - htext hq hlast
    obtain ⟨body, rfl⟩ := List.getLast?_eq_some_iff.mp hlast
    rw [htext, List.dropLast_concat]
    rcases hq with rfl | rfl <;> exact Source.covers_between rfl rfl body

/-! ### Results by computation -/

theorem eq_ok_of_toOption {ε α : Type} {x : Except ε α} {a : α} (h : x.toOption = some a) :
    x = .ok a := by
  cases x with
  | error => cases h
  | ok => exact congrArg _ (Option.some.inj h)

/-- A result is known to be there and to pass a test. -/
theorem exists_of_toOption_any {ε α : Type} {x : Except ε α} {q : α → Bool}
    (h : x.toOption.any q = true) :
    ∃ a, x = .ok a ∧ q a = true := by
  obtain ⟨a, ha, hq⟩ := (Option.any_eq_true _ _).mp h
  exact ⟨a, eq_ok_of_toOption ha, hq⟩

/-- Some property of a source that parses, by computation. -/
theorem Program.exists_parse (source : String) (q : Program → Bool)
    (h : (Program.parse source).toOption.any q = true) :
    ∃ p, Program.parse source = .ok p ∧ q p = true :=
  exists_of_toOption_any h

/-! ### Sources -/

theorem Program.parse_of_error {source : String} {offset : Nat}
    (h : Tree.ofSource source.toList = .error offset) :
    Program.parse source = .error (.grammar offset (lineColumn source.toList offset).1
      (lineColumn source.toList offset).2) := by
  unfold Program.parse
  extract_lets chars
  split
  · next h' =>
    cases h.symm.trans h'
    rfl
  · next h' => cases h.symm.trans h'

theorem Program.parse_of_ok {source : String} {tree : Tree}
    (h : Tree.ofSource source.toList = .ok tree) :
    Program.parse source = (Program.ofTree source.toList tree).mapError .build := by
  unfold Program.parse
  extract_lets chars
  split
  · next h' => cases h.symm.trans h'
  · next h' =>
    cases h.symm.trans h'
    cases Program.ofTree source.toList tree <;> rfl

/-- The statements of a script that was parsed are built from parts of its parse tree. -/
theorem Program.built_of_parse {source : String} {p : Program} (h : Program.parse source = .ok p) :
    ∃ span children next furthest elements counters,
      Parse.script source.toList = ⟨.matched [.node .script span children] next, furthest⟩ ∧
      List.Sublist elements children ∧
        p.strict = hasStrictDirective (Build.directives source.toList elements) ∧
      p.span = span ∧ Build.stmts source.toList p.strict elements ⟨0, 1⟩ =
        .ok (p.body, counters) := by
  cases htree : Tree.ofSource source.toList with
  | error offset =>
    rw [Program.parse_of_error htree] at h
    cases h
  | ok tree =>
    rw [Program.parse_of_ok htree] at h
    unfold Tree.ofSource at htree
    split at htree
    · next next furthest hscript =>
      cases htree
      obtain ⟨span, children, htrees, -⟩ := Parse.parsed_of_script hscript
      cases htrees
      cases hbuild : Program.ofTree source.toList (.node .script span children) with
      | error e =>
        rw [hbuild] at h
        cases h
      | ok program =>
        rw [hbuild] at h
        cases h
        simp only [Program.ofTree] at hbuild
        split at hbuild
        · next body counters hrun =>
          cases hbuild
          exact ⟨span, children, next, furthest, _, counters, hscript, List.filter_sublist,
            rfl, rfl, hrun⟩
        · cases hbuild
    · cases htree

/-- A source is refused by the grammar, or it has one parse tree.  In that case everything that is
cut out of it is there, and it is a script or breaks one of five rules. -/
theorem Program.parse_decides (source : String) :
    (∃ furthest, Parse.script source.toList = ⟨.failed, furthest⟩ ∧
      Program.parse source = .error (.grammar furthest (lineColumn source.toList furthest).1
        (lineColumn source.toList furthest).2)) ∨
    ∃ tree next furthest, Parse.script source.toList = ⟨.matched [tree] next, furthest⟩ ∧
      (∀ part, tree.Contains part → part.Sliced source.toList) ∧
      ((∃ program, Program.parse source = .ok program) ∨
        ∃ e, Program.parse source = .error (.build e) ∧
          e.message ∈ ["Invalid left-hand side in assignment", "Invalid left-hand side in for-in",
            "Invalid left-hand side expression in prefix operation",
            "Invalid left-hand side expression in postfix operation",
            "More than one default clause in switch statement"]) := by
  cases hscript : Parse.script source.toList with
  | mk outcome furthest =>
    cases outcome with
    | exhausted => exact absurd (by rw [hscript]) (Parse.script_ne_exhausted source.toList)
    | failed =>
      refine .inl ⟨furthest, rfl, Program.parse_of_error ?_⟩
      unfold Tree.ofSource
      rw [hscript]
    | matched trees next =>
      obtain ⟨span, children, rfl, hparsed⟩ := Parse.parsed_of_script hscript
      refine .inr ⟨_, next, furthest, rfl, fun part hpart => (hparsed.of_contains hpart).sliced, ?_⟩
      have htree : Tree.ofSource source.toList = .ok (.node .script span children) := by
        unfold Tree.ofSource
        rw [hscript]
      rw [Program.parse_of_ok htree]
      cases hbuild : Program.ofTree source.toList (.node .script span children) with
      | ok program => exact .inl ⟨program, rfl⟩
      | error e =>
        refine .inr ⟨e, rfl, ?_⟩
        cases e with
        | malformed at_ => exact absurd hbuild (Program.ofTree_ne_malformed hparsed at_)
        | _ => simp [BuildError.message]

end ScriptEngine
