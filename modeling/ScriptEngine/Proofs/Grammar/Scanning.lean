import ScriptEngine.Grammar.Token
import ScriptEngine.Script.Literal
import ScriptEngine.Script.Operator
import Mathlib.Data.List.TakeWhile

/-!
# Scanned tokens

What a token that was recognised at the head of a text looks like.  Its characters are a beginning
of the text, operators have a meaning, hexadecimal digits have a value, and strings and regular
expressions are closed by the mark that opened them.

## Main statements

* `Token.eq_append_of_scan?` : a token and the text after it are the text.
* `Token.exists_hexValue?` : hexadecimal digits have a value.
* `Token.of_scanString`, `Token.of_scanRegularExpression` : strings and regular expressions are
  closed.
* `Token.exists_binaryOp`, `Token.exists_unaryOp` : operators have a meaning.
-/

namespace ScriptEngine

namespace Token

/-! ### Beginnings of a text -/

/-- A recogniser splits the text. -/
def Splits (scan : Scan) : Prop :=
  ∀ ⦃cs text rest⦄, scan cs = some (text, rest) → cs = text ++ rest

theorem word_append_afterWord (cs : List Char) : word cs ++ afterWord cs = cs :=
  List.takeWhile_append_dropWhile

theorem splits_scanName : Splits scanName := by
  intro cs text rest h
  cases cs with
  | nil => cases h
  | cons c cs =>
    simp only [scanName] at h
    split at h
    · cases h
      simp [word_append_afterWord]
    · cases h

theorem splits_scanIdentifier : Splits scanIdentifier := by
  intro cs text rest h
  unfold scanIdentifier at h
  split at h
  · cases h
  · exact splits_scanName h

theorem splits_scanWord (words : List (List Char)) : Splits (scanWord words) := by
  intro cs text rest h
  unfold scanWord at h
  split at h
  · cases h
    exact (word_append_afterWord cs).symm
  · cases h

theorem eq_append_of_run {p : Char → Bool} {cs ds tail : List Char} (h : run p cs = (ds, tail)) :
    cs = ds ++ tail := by
  cases h
  exact List.takeWhile_append_dropWhile.symm

theorem all_of_run {p : Char → Bool} {cs ds tail : List Char} (h : run p cs = (ds, tail)) :
    ∀ c ∈ ds, p c = true := by
  cases h
  exact fun c hc => List.mem_takeWhile_imp hc

/-- The text of an exponent: a letter, a sign and digits. -/
structure IsExponent (text : List Char) (e : Char) (sign digits : List Char) : Prop where
  eq : text = e :: (sign ++ digits)
  letter : e = 'e' ∨ e = 'E'
  sign : sign = [] ∨ sign = ['+'] ∨ sign = ['-']
  nonempty : digits ≠ []
  digits : ∀ c ∈ digits, c.isDigit = true

/-- What is read of an exponent whose letter and sign were read, digits being what comes next. -/
def exponentDigits (e : Char) (rest sign digits : List Char) : List Char × List Char :=
  match run Char.isDigit digits with
  | ([], _) => ([], e :: rest)
  | (ds, tail) => (e :: sign ++ ds, tail)

theorem of_exponentPart {cs text rest : List Char} (h : exponentPart cs = (text, rest)) :
    cs = text ++ rest ∧ (text = [] ∨ ∃ e sign digits, IsExponent text e sign digits) := by
  unfold exponentPart at h
  split at h
  · next e rest' =>
    split at h
    · next he =>
      have key {sign digits : List Char} (hrest : rest' = sign ++ digits)
          (hsign : sign = [] ∨ sign = ['+'] ∨ sign = ['-'])
          (h : exponentDigits e rest' sign digits = (text, rest)) :
          e :: rest' = text ++ rest ∧
            (text = [] ∨ ∃ e sign digits, IsExponent text e sign digits) := by
        unfold exponentDigits at h
        split at h
        · cases h
          exact ⟨rfl, .inl rfl⟩
        · next ds tail hds hrun =>
          cases h
          refine ⟨by simp [hrest, eq_append_of_run hrun], .inr ⟨e, sign, ds, by simp, ?_, hsign,
            fun h => hds h, all_of_run hrun⟩⟩
          simpa using he
      split at h
      next sign digits hsplit =>
        refine key (show rest' = sign ++ digits from ?_) ?_
          h <;> split at hsplit <;> cases hsplit <;> simp
    · cases h
      exact ⟨rfl, .inl rfl⟩
  · cases h
    exact ⟨rfl, .inl rfl⟩

/-- The text of a significand: digits on both sides of a point, or digits alone. -/
inductive IsSignificand : List Char → Prop
  | pointed {whole fraction : List Char} (hw : ∀ c ∈ whole, c.isDigit = true)
      (hf : ∀ c ∈ fraction, c.isDigit = true) (h : whole ≠ [] ∨ fraction ≠ []) :
      IsSignificand (whole ++ '.' :: fraction)
  | whole {whole : List Char} (hw : ∀ c ∈ whole, c.isDigit = true) (h : whole ≠ []) :
      IsSignificand whole

theorem of_significand {cs text rest : List Char} (h : significand cs = some (text, rest)) :
    cs = text ++ rest ∧ IsSignificand text := by
  unfold significand at h
  split at h
  · next hwhole =>
    split at h
    · cases h
    · next hne hfraction =>
      cases h
      refine ⟨by simp [eq_append_of_run hwhole, eq_append_of_run hfraction], ?_⟩
      exact @IsSignificand.pointed [] _ nofun (all_of_run hfraction) (.inr fun h => hne h)
  · cases h
  · next hne hwhole =>
    cases h
    refine ⟨by simp [eq_append_of_run hwhole], ?_⟩
    exact .pointed (all_of_run hwhole) (fun c hc => List.mem_takeWhile_imp hc) (.inl fun h => hne h)
  · next hempty _ hwhole =>
    cases h
    exact ⟨eq_append_of_run hwhole, .whole (all_of_run hwhole) fun h => hempty h⟩

theorem of_scanDecimal {cs text rest : List Char} (h : scanDecimal cs = some (text, rest)) :
    cs = text ++ rest ∧ ∃ significand exponent, text = significand ++ exponent ∧
      IsSignificand significand ∧
      (exponent = [] ∨ ∃ e sign digits, IsExponent exponent e sign digits) := by
  obtain ⟨⟨digits, tail⟩, hsig, heq⟩ := Option.map_eq_some_iff.mp h
  obtain ⟨rfl, hdigits⟩ := of_significand hsig
  cases heq
  obtain ⟨htail, hexponent⟩ := @of_exponentPart tail _ _ rfl
  exact ⟨by rw [List.append_assoc, ← htail], digits, _, rfl, hdigits, hexponent⟩

theorem of_scanHex {cs text rest : List Char} (h : scanHex cs = some (text, rest)) :
    cs = text ++ rest ∧ ∃ x digits, (x = 'x' ∨ x = 'X') ∧ text = '0' :: x :: digits ∧
      ∀ c ∈ digits, isHexDigit c = true := by
  unfold scanHex at h
  split at h
  · next x rest' =>
    split at h
    · next hx =>
      split at h
      · cases h
      · next digits tail _ hrun =>
        cases h
        refine ⟨by simp [eq_append_of_run hrun], x, digits, ?_, rfl, all_of_run hrun⟩
        simpa using hx
    · cases h
  · cases h

theorem of_scanNumber {cs text rest : List Char} (h : scanNumber cs = some (text, rest)) :
    scanHex cs = some (text, rest) ∨ scanDecimal cs = some (text, rest) := by
  unfold scanNumber at h
  split at h
  · next heq =>
    split at h
    · cases h
    · cases h
      exact (Option.or_eq_some_iff.mp heq).imp_right And.right
  · cases h

theorem push_eq_some {c : Char} {o : Option (List Char × List Char)} {text rest : List Char}
    (h : push c o = some (text, rest)) : ∃ tail, text = c :: tail ∧ o = some (tail, rest) := by
  cases o with
  | none => cases h
  | some p =>
    cases h
    exact ⟨p.1, rfl, rfl⟩

/-- The rest of a string literal ends with its quote. -/
theorem of_stringTail {quote : Char} {cs text rest : List Char}
    (h : stringTail quote cs = some (text, rest)) :
    cs = text ++ rest ∧ ∃ body, text = body ++ [quote] := by
  fun_induction stringTail quote cs generalizing text with
  | case1 => cases h
  | case2 cs ih =>
    obtain ⟨_, rfl, h₁⟩ := push_eq_some h
    obtain ⟨_, rfl, h₂⟩ := push_eq_some h₁
    obtain ⟨_, rfl, h₃⟩ := push_eq_some h₂
    obtain ⟨rfl, body, rfl⟩ := ih h₃
    exact ⟨by simp, '\\' :: '\r' :: '\n' :: body, rfl⟩
  | case3 c cs _ ih =>
    obtain ⟨_, rfl, h₁⟩ := push_eq_some h
    obtain ⟨_, rfl, h₂⟩ := push_eq_some h₁
    obtain ⟨rfl, body, rfl⟩ := ih h₂
    exact ⟨by simp, '\\' :: c :: body, rfl⟩
  | case4 c cs hq =>
    cases h
    exact ⟨rfl, [], by simp_all⟩
  | case5 => cases h
  | case6 c cs _ _ _ _ ih =>
    obtain ⟨_, rfl, h₁⟩ := push_eq_some h
    obtain ⟨rfl, body, rfl⟩ := ih h₁
    exact ⟨by simp, c :: body, rfl⟩

/-- A string literal is what stands between two equal quotes. -/
theorem of_scanString {cs text rest : List Char} (h : scanString cs = some (text, rest)) :
    cs = text ++ rest ∧ ∃ q body, (q = '"' ∨ q = '\'') ∧ text = q :: (body ++ [q]) := by
  unfold scanString at h
  split at h
  · obtain ⟨_, rfl, h₁⟩ := push_eq_some h
    obtain ⟨rfl, body, rfl⟩ := of_stringTail h₁
    exact ⟨rfl, '"', body, .inl rfl, rfl⟩
  · obtain ⟨_, rfl, h₁⟩ := push_eq_some h
    obtain ⟨rfl, body, rfl⟩ := of_stringTail h₁
    exact ⟨rfl, '\'', body, .inr rfl, rfl⟩
  · cases h

theorem of_regularExpressionTail {inClass : Bool} {cs text rest : List Char}
    (h : regularExpressionTail inClass cs = some (text, rest)) :
    cs = text ++ rest ∧ ∃ body, text = body ++ ['/'] := by
  fun_induction regularExpressionTail inClass cs generalizing text with
  | case1 => cases h
  | case2 => cases h
  | case3 => cases h
  | case4 inClass c cs _ ih =>
    obtain ⟨_, rfl, h₁⟩ := push_eq_some h
    obtain ⟨_, rfl, h₂⟩ := push_eq_some h₁
    obtain ⟨rfl, body, rfl⟩ := ih h₂
    exact ⟨by simp, '\\' :: c :: body, rfl⟩
  | case5 => cases h
  | case6 c cs _ _ _ ih =>
    obtain ⟨_, rfl, h₁⟩ := push_eq_some h
    obtain ⟨rfl, body, rfl⟩ := ih h₁
    exact ⟨by simp, c :: body, rfl⟩
  | case7 inClass c cs _ _ _ _ hslash =>
    cases h
    exact ⟨rfl, [], by simp_all⟩
  | case8 inClass c cs _ _ _ _ _ ih =>
    obtain ⟨_, rfl, h₁⟩ := push_eq_some h
    obtain ⟨rfl, body, rfl⟩ := ih h₁
    exact ⟨by simp, c :: body, rfl⟩

/-- A regular expression is what stands between two slashes, and its flags. -/
theorem of_scanRegularExpression {cs text rest : List Char}
    (h : scanRegularExpression cs = some (text, rest)) :
    cs = text ++ rest ∧ ∃ body flags, text = '/' :: (body ++ '/' :: flags) ∧
      flags = word flags := by
  unfold scanRegularExpression at h
  split at h
  · split at h
    · cases h
    · split at h
      · next tail hpush =>
        cases h
        obtain ⟨_, rfl, htail⟩ := push_eq_some hpush
        obtain ⟨heq, body, rfl⟩ := of_regularExpressionTail htail
        refine ⟨?_, body, word tail, by simp, ?_⟩
        · simp [heq, word_append_afterWord]
        · exact List.takeWhile_idem.symm
      · cases h
  · cases h

theorem after?_eq_some {p cs rest : List Char} (h : after? p cs = some rest) : cs = p ++ rest := by
  fun_induction after? p cs with
  | case1 => cases h; rfl
  | case2 => cases h
  | case3 p ps c cs hpc ih => simp_all
  | case4 => cases h

/-- An operator that is recognised is one of its spellings. -/
theorem of_scanOperator {spellings : List Spelling} {cs text rest : List Char}
    (h : scanOperator spellings cs = some (text, rest)) :
    cs = text ++ rest ∧ text ∈ spellings.map (·.text) := by
  induction spellings with
  | nil => cases h
  | cons s spellings ih =>
    have hlater (h : scanOperator spellings cs = some (text, rest)) :
        cs = text ++ rest ∧ text ∈ (s :: spellings).map (·.text) :=
      ⟨(ih h).1, List.mem_cons_of_mem _ (ih h).2⟩
    simp only [scanOperator] at h
    split at h
    · next tail hafter =>
      split at h
      · cases h
        exact ⟨after?_eq_some hafter, by simp⟩
      · exact hlater h
    · exact hlater h

/-- A token and the text after it are the text. -/
theorem eq_append_of_scan? (t : Token) : Splits t.scan? := by
  intro cs text rest h
  cases t with
  | identifier => exact splits_scanIdentifier h
  | identifierName => exact splits_scanName h
  | keyword => exact splits_scanWord _ h
  | nullLiteral => exact splits_scanWord _ h
  | booleanLiteral => exact splits_scanWord _ h
  | numericLiteral => 
    rcases of_scanNumber h with h | h
    · exact (of_scanHex h).1
    · exact (of_scanDecimal h).1
  | stringLiteral => exact (of_scanString h).1
  | regularExpressionLiteral => exact (of_scanRegularExpression h).1
  | _ => exact (of_scanOperator h).1

/-! ### Numerals -/

theorem hexDigit?_eq_none_iff {c : Char} : hexDigit? c = none ↔ isHexDigit c = false := by
  unfold hexDigit? isHexDigit
  cases c.isDigit <;> cases decide ('a' ≤ c) && decide (c ≤ 'f') <;>
    cases decide ('A' ≤ c) && decide (c ≤ 'F') <;> simp

theorem exists_hexDigit? {c : Char} (h : isHexDigit c = true) : ∃ d, hexDigit? c = some d := by
  refine Option.ne_none_iff_exists'.mp fun hnone => ?_
  rw [hexDigit?_eq_none_iff, h] at hnone
  cases hnone

theorem exists_hexValue? {ds : List Char} (h : ∀ c ∈ ds, isHexDigit c = true) (acc : Float) :
    ∃ x, hexValue? ds acc = some x := by
  induction ds generalizing acc with
  | nil => exact ⟨acc, rfl⟩
  | cons c ds ih =>
    obtain ⟨d, hd⟩ := exists_hexDigit? (h c List.mem_cons_self)
    obtain ⟨x, hx⟩ := ih (fun c hc => h c (List.mem_cons_of_mem _ hc)) (acc * 16.0 + Float.ofNat d)
    exact ⟨x, by simpa [hexValue?, hd] using hx⟩

/-- The run of a class ends where another character follows. -/
theorem run_append {p : Char → Bool} {ds tail : List Char} (hds : ∀ c ∈ ds, p c = true)
    (htail : ∀ c, tail.head? = some c → p c = false) :
    (ds ++ tail).takeWhile p = ds ∧ (ds ++ tail).dropWhile p = tail := by
  rw [List.takeWhile_append_of_pos hds, List.dropWhile_append_of_pos hds]
  cases tail with
  | nil => simp
  | cons c tail => simp [htail c rfl]

/-! ### Operators -/

/-- The spellings of operators between two operands, logical ones apart, have a meaning. -/
theorem exists_binaryOp {t : Token} (ht : t ∈ [.multiplicativeOperator, .additiveOperator,
      .shiftOperator, .relationalOperator, .equalityOperator, .bitwiseAndOperator,
      .bitwiseXorOperator, .bitwiseOrOperator]) {text : List Char}
    (h : text ∈ t.spellings.map (·.text)) : ∃ op, BinaryOp.ofText? text = some op := by
  have key : ∀ t ∈ [multiplicativeOperator, additiveOperator, shiftOperator, relationalOperator,
      equalityOperator, bitwiseAndOperator, bitwiseXorOperator, bitwiseOrOperator],
      ∀ text ∈ t.spellings.map (·.text), (BinaryOp.ofText? text).isSome = true := by decide
  exact Option.isSome_iff_exists.mp (key t ht text h)

theorem exists_assignOp {text : List Char}
    (h : text ∈ (spellings .assignmentOperator).map (·.text)) :
    ∃ op, AssignOp.ofText? text = some op := by
  have key : ∀ text ∈ (spellings .assignmentOperator).map (·.text),
      (AssignOp.ofText? text).isSome = true := by decide
  exact Option.isSome_iff_exists.mp (key text h)

theorem exists_updateOp {text : List Char} (h : text ∈ (spellings .postfixOperator).map (·.text)) :
    ∃ op, UpdateOp.ofText? text = some op := by
  have key : ∀ text ∈ (spellings .postfixOperator).map (·.text),
      (UpdateOp.ofText? text).isSome = true := by decide
  exact Option.isSome_iff_exists.mp (key text h)

/-- An operator in front of an operand steps it or only reads it. -/
theorem exists_unaryOp {text : List Char} (h : text ∈ (spellings .unaryOperator).map (·.text))
    (hupdate : UpdateOp.ofText? text = none) : ∃ op, UnaryOp.ofText? text = some op := by
  have key : ∀ text ∈ (spellings .unaryOperator).map (·.text),
      UpdateOp.ofText? text = none → (UnaryOp.ofText? text).isSome = true := by decide
  exact Option.isSome_iff_exists.mp (key text h hupdate)

end Token

end ScriptEngine
