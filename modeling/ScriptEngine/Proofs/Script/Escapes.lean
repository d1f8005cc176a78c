import ScriptEngine.Script.Literal
import ScriptEngine.Proofs.Grammar.Scanning
import Mathlib.Data.List.Forall2

/-!
# Escapes in string literals

What the body of a string literal stands for.  A text has many spellings, and all of them are
literals that stand for it.  An escape whose hexadecimal digits are incomplete stands for its
letter; the digits that are there are lost.

## Main definitions

* `HexNumeral` : the hexadecimal digits of a number.
* `Spelled` : the bodies of literals that spell a text.
* `EndsOutside` : the beginnings of a body that do not end within an escape.

## Main statements

* `Spelled.stringLiteral` : a spelling of a text is a literal that stands for the text.
* `Spelled.exists_spelled` : every text has a spelling.
* `stringLiteralValue_incomplete` : what an escape without enough digits stands for.
-/

namespace ScriptEngine

-- The equations of these functions are made here, once for all the lemmas below.
attribute [local grind =] readHex escapedCode letterEscape? decodeEscape decodeEscapes
  Token.stringTail

/-! ### One step of decoding -/

theorem decodeEscapes_nil : decodeEscapes [] = [] := by
  rw [decodeEscapes]

theorem decodeEscapes_plain {c : Char} (hc : c ≠ '\\') (rest : List Char) :
    decodeEscapes (c :: rest) = c :: decodeEscapes rest := by
  rw [decodeEscapes]
  · rintro rfl
    exact fun _ => hc rfl
  · rintro e more rfl
    exact fun _ => hc rfl

/-- An escape stands for some text, and the text after it for itself. -/
theorem decodeEscapes_escape {e : Char} {rest more text : List Char}
    (h : decodeEscape e rest = (text, more)) :
    decodeEscapes ('\\' :: e :: rest) = text ++ decodeEscapes more := by
  rw [decodeEscapes, h]

/-! ### Hexadecimal digits -/

/-- A character is the hexadecimal digit of a number, as a small or as a capital letter. -/
def IsHexDigitOf (c : Char) (d : Nat) : Prop :=
  "0123456789abcdef".toList[d]? = some c ∨ "0123456789ABCDEF".toList[d]? = some c

theorem IsHexDigitOf.hexDigit? {c : Char} {d : Nat} (h : IsHexDigitOf c d) :
    hexDigit? c = some d := by
  have hall : ∀ digits ∈ ["0123456789abcdef".toList, "0123456789ABCDEF".toList],
      digits.length = 16 ∧
      ∀ d < 16, digits[d]?.all (fun c => ScriptEngine.hexDigit? c == some d) = true := by decide
  have key {digits : List Char}
      (hdigits : digits ∈ ["0123456789abcdef".toList, "0123456789ABCDEF".toList])
      (h : digits[d]? = some c) : ScriptEngine.hexDigit? c = some d := by
    obtain ⟨hlength, hvalue⟩ := hall digits hdigits
    have hd : d < 16 := hlength ▸ (List.getElem?_eq_some_iff.mp h).1
    have := hvalue d hd
    rwa [h, Option.all_some, beq_iff_eq] at this
  rcases h with h | h
  · exact key List.mem_cons_self h
  · exact key (List.mem_cons_of_mem _ List.mem_cons_self) h

/-- The hexadecimal digits of a number. -/
def HexNumeral (digits : List Char) (n : Nat) : Prop :=
  ∃ ds, List.Forall₂ IsHexDigitOf digits ds ∧ ds.foldl (fun n d => 16 * n + d) 0 = n

theorem HexNumeral.readHex {digits : List Char} {n : Nat} (h : HexNumeral digits n)
    (rest : List Char) :
    readHex digits.length 0 (digits ++ rest) = (some n, rest) := by
  obtain ⟨ds, hds, rfl⟩ := h
  generalize 0 = acc
  induction hds generalizing acc with
  | nil => rfl
  | cons hd _ ih =>
    rw [List.length_cons, List.cons_append, ScriptEngine.readHex, hd.hexDigit?]
    exact ih _

/-! ### Spellings -/

/-- The letters that stand for a character after a backslash. -/
def letterEscapes : List (Char × Char) :=
  [('n', '\n'), ('t', '\t'), ('r', '\r'), ('b', '\x08'), ('f', '\x0C'), ('v', '\x0B')]

/-- The characters that do not stand for themselves after a backslash. -/
def escapeStarts : List Char :=
  ['n', 't', 'r', 'b', 'f', 'v', 'x', 'u', '0', '\n', '\r', '\u2028', '\u2029']

/-- The line ends that nothing is left of after a backslash. -/
def lineEnds : List (List Char) :=
  [['\n'], ['\r'], ['\r', '\n'], ['\u2028'], ['\u2029']]

/-- The bodies of literals in a quote that spell a text.  Every character is spelled in one of
several ways, and between two characters the literal may go on in a new line. -/
inductive Spelled (quote : Char) : List Char → List Char → Prop
  | nil : Spelled quote [] []
  /-- A character as it is. -/
  | plain {c : Char} {body s : List Char} (hc : c ∉ [quote, '\\', '\n', '\r'])
    (rest : Spelled quote body s) :
      Spelled quote (c :: body) (c :: s)
  /-- The code of a character in two digits. -/
  | byte {c : Char} {digits body s : List Char} (length : digits.length = 2)
      (value : HexNumeral digits c.toNat) (rest : Spelled quote body s) :
      Spelled quote ('\\' :: 'x' :: (digits ++ body)) (c :: s)
  /-- The code unit of a character in four digits. -/
  | unit {c : Char} {n : Nat} {digits body s : List Char} (length : digits.length = 4)
      (units : Text.charUnits c = [n]) (value : HexNumeral digits n) (rest : Spelled quote body s) :
      Spelled quote ('\\' :: 'u' :: (digits ++ body)) (c :: s)
  /-- The two code units of a character in four digits each. -/
  | pair {c : Char} {high low : Nat} {digits digits' body s : List Char}
      (length : digits.length = 4) (length' : digits'.length = 4)
      (units : Text.charUnits c = [high, low]) (value : HexNumeral digits high)
      (value' : HexNumeral digits' low) (rest : Spelled quote body s) :
      Spelled quote ('\\' :: 'u' :: (digits ++ '\\' :: 'u' :: (digits' ++ body))) (c :: s)
  /-- A letter that stands for a character. -/
  | letter {e c : Char} {body s : List Char}
    (he : (e, c) ∈ letterEscapes) (rest : Spelled quote body s) :
      Spelled quote ('\\' :: e :: body) (c :: s)
  /-- The digit zero, which no digit follows. -/
  | zero {body s : List Char} (hbody : ∀ d ∈ body.head?, d.isDigit = false)
    (rest : Spelled quote body s) :
      Spelled quote ('\\' :: '0' :: body) ('\x00' :: s)
  /-- A character that stands for itself. -/
  | itself {c : Char} {body s : List Char} (hc : c ∉ escapeStarts) (rest : Spelled quote body s) :
      Spelled quote ('\\' :: c :: body) (c :: s)
  /-- A line end, which stands for nothing. -/
  | lineEnd {t body s : List Char} (ht : t ∈ lineEnds) (rest : Spelled quote body s) :
      Spelled quote ('\\' :: (t ++ body)) s

namespace Spelled

variable {quote : Char} {body s : List Char}

/-- No spelling begins with a line feed. -/
theorem head?_ne (h : Spelled quote body s) : body.head? ≠ some '\n' := by
  cases h with
  | plain hc => rintro ⟨⟩; simp at hc
  | _ => simp

end Spelled

/-! ### Escapes of characters -/

theorem decodeEscape_letter {e c : Char} (he : (e, c) ∈ letterEscapes) (rest : List Char) :
    decodeEscape e rest = ([c], rest) := by
  simp only [letterEscapes, List.mem_cons, Prod.mk.injEq, List.not_mem_nil, or_false] at he
  rcases he with ⟨rfl, rfl⟩ | ⟨rfl, rfl⟩ | ⟨rfl, rfl⟩ | ⟨rfl, rfl⟩ | ⟨rfl, rfl⟩ | ⟨rfl, rfl⟩ <;> rfl

theorem decodeEscape_zero {rest : List Char} (h : ∀ d ∈ rest.head?, d.isDigit = false) :
    decodeEscape '0' rest = (['\x00'], rest) := by
  cases rest with
  | nil => rfl
  | cons d rest => simp [decodeEscape, letterEscape?, h d rfl]

theorem decodeEscape_itself {c : Char} (hc : c ∉ escapeStarts) (rest : List Char) :
    decodeEscape c rest = ([c], rest) := by
  simp only [escapeStarts, List.mem_cons, List.not_mem_nil, or_false, not_or] at hc
  obtain ⟨hn, ht, hr, hb, hf, hv, hx, hu, hzero, hlf, hcr, hls, hps⟩ := hc
  have hletter : letterEscape? c = none := by
    unfold letterEscape?
    split <;> first | rfl | contradiction
  simp [decodeEscape, *]

theorem decodeEscape_byte {digits : List Char} {n : Nat} (hlength : digits.length = 2)
    (h : HexNumeral digits n) (rest : List Char) :
    decodeEscape 'x' (digits ++ rest) = ([Text.charOfUnit n], rest) := by
  have hread := h.readHex rest
  rw [hlength] at hread
  simp [decodeEscape, letterEscape?, hread]

theorem decodeEscape_unit {digits : List Char} {n : Nat} (hlength : digits.length = 4)
    (h : HexNumeral digits n) (rest : List Char) :
    decodeEscape 'u' (digits ++ rest) = ([(escapedCode n rest).1], (escapedCode n rest).2) := by
  have hread := h.readHex rest
  rw [hlength] at hread
  simp [decodeEscape, letterEscape?, hread]

theorem charOfUnit_toNat (c : Char) : Text.charOfUnit c.toNat = c := by
  have hvalid : c.toNat.isValidChar := c.valid
  simp [Text.charOfUnit, hvalid]

/-- A code unit that is a character by itself. -/
theorem escapedCode_unit {c : Char} {n : Nat} (h : Text.charUnits c = [n]) (rest : List Char) :
    escapedCode n rest = (c, rest) := by
  have hn : c.toNat = n := by
    simp only [Text.charUnits] at h
    split at h
    · exact (List.cons.inj h).1
    · cases h
  subst hn
  have hvalid : c.toNat.isValidChar := c.valid
  have hnot : ¬ (0xD800 ≤ c.toNat ∧ c.toNat ≤ 0xDBFF) := by
    unfold Nat.isValidChar at hvalid
    omega
  simp [escapedCode, charOfUnit_toNat, hnot]

/-- A surrogate pair. -/
theorem escapedCode_pair {c : Char} {high low : Nat} {digits : List Char}
    (h : Text.charUnits c = [high, low]) (hlength : digits.length = 4)
    (hlow : HexNumeral digits low) (rest : List Char) :
    escapedCode high ('\\' :: 'u' :: (digits ++ rest)) = (c, rest) := by
  have hvalid : c.toNat.isValidChar := c.valid
  obtain ⟨hbeyond, hhigh, hlow'⟩ : 0x10000 ≤ c.toNat ∧ high = 0xD800 + (c.toNat - 0x10000) / 0x400 ∧
      low = 0xDC00 + (c.toNat - 0x10000) % 0x400 := by
    simp only [Text.charUnits] at h
    split at h
    · cases h
    · next hbeyond =>
      simp only [List.cons.injEq, and_true] at h
      exact ⟨not_lt.mp hbeyond, h.1.symm, h.2.symm⟩
  have hbound : c.toNat < 0x110000 := by
    unfold Nat.isValidChar at hvalid
    omega
  have hread := hlow.readHex rest
  rw [hlength] at hread
  have hpair : lowSurrogate? ('\\' :: 'u' :: (digits ++ rest)) = some (low, rest) := by
    have : 0xDC00 ≤ low ∧ low ≤ 0xDFFF := by omega
    simp [lowSurrogate?, hread, this]
  have hrange : 0xD800 ≤ high ∧ high ≤ 0xDBFF := by omega
  have hcode : 0x10000 + (high - 0xD800) * 0x400 + (low - 0xDC00) = c.toNat := by omega
  simp [escapedCode, hrange, hpair, hcode, charOfUnit_toNat]

/-- Nothing is left of a line end. -/
theorem decodeEscape_lineEnd {t rest : List Char} (ht : t ∈ lineEnds)
    (hrest : rest.head? ≠ some '\n') :
    ∃ e more, t ++ rest = e :: more ∧ decodeEscape e more = ([], rest) := by
  simp only [lineEnds, List.mem_cons, List.not_mem_nil, or_false] at ht
  rcases ht with rfl | rfl | rfl | rfl | rfl
  case inr.inl =>
    refine ⟨'\r', rest, rfl, ?_⟩
    have hnot : ∀ tail, rest ≠ '\n' :: tail := by
      rintro tail rfl
      exact hrest rfl
    simp only [decodeEscape]
    split <;> simp_all [letterEscape?]
  all_goals exact ⟨_, _, rfl, rfl⟩

namespace Spelled

variable {quote : Char} {body s : List Char}

/-- A spelling stands for the text that it spells. -/
theorem decodeEscapes (h : Spelled quote body s) : decodeEscapes body = s := by
  induction h with
  | nil => exact decodeEscapes_nil
  | plain hc _ ih =>
    rw [decodeEscapes_plain (fun heq => hc (by simp [heq])), ih]
  | byte length value _ ih =>
    rw [decodeEscapes_escape (decodeEscape_byte length value _), ih, charOfUnit_toNat]
    rfl
  | unit length units value _ ih =>
    rw [decodeEscapes_escape (decodeEscape_unit length value _), escapedCode_unit units]
    exact congrArg _ ih
  | pair length length' units value value' _ ih =>
    rw [decodeEscapes_escape (decodeEscape_unit length value _),
      escapedCode_pair units length' value']
    exact congrArg _ ih
  | letter he _ ih =>
    rw [decodeEscapes_escape (decodeEscape_letter he _), ih]
    rfl
  | zero hbody _ ih =>
    rw [decodeEscapes_escape (decodeEscape_zero hbody), ih]
    rfl
  | itself hc _ ih =>
    rw [decodeEscapes_escape (decodeEscape_itself hc _), ih]
    rfl
  | lineEnd ht rest ih =>
    obtain ⟨e, more, heq, hdecode⟩ := decodeEscape_lineEnd ht rest.head?_ne
    rw [heq, decodeEscapes_escape hdecode, ih]
    rfl

end Spelled

/-! ### The end of a literal -/

/-- A body between quotes. -/
def inQuotes (quote : Char) (body : List Char) : List Char :=
  quote :: (body ++ [quote])

theorem stringLiteralValue_inQuotes (quote : Char) (body : List Char) :
    stringLiteralValue (inQuotes quote body) = String.ofList (decodeEscapes body) := by
  simp [stringLiteralValue, inQuotes]

namespace Token

variable {quote : Char} {text rest more : List Char}

theorem stringTail_plain {c : Char} (hc : c ∉ [quote, '\\', '\n', '\r'])
    (h : stringTail quote rest = some (text, more)) :
    stringTail quote (c :: rest) = some (c :: text, more) := by
  simp only [List.mem_cons, List.not_mem_nil, or_false, not_or] at hc
  obtain ⟨hquote, hbackslash, hlf, hcr⟩ := hc
  rw [stringTail, h]
  · simp [hquote, hbackslash, isLineEnd, hlf, hcr, push]
  · exact fun _ heq => absurd heq hbackslash
  · exact fun _ _ heq => absurd heq hbackslash

theorem stringTail_plains {cs : List Char} (hcs : ∀ c ∈ cs, c ∉ [quote, '\\', '\n', '\r'])
    (h : stringTail quote rest = some (text, more)) :
    stringTail quote (cs ++ rest) = some (cs ++ text, more) := by
  induction cs with
  | nil => exact h
  | cons c cs ih =>
    rw [List.forall_mem_cons] at hcs
    exact stringTail_plain hcs.1 (ih hcs.2)

/-- An escape takes the next character with it. -/
theorem stringTail_escape {e : Char} (he : e = '\r' → rest.head? ≠ some '\n')
    (h : stringTail quote rest = some (text, more)) :
    stringTail quote ('\\' :: e :: rest) = some ('\\' :: e :: text, more) := by
  rw [stringTail, h]
  · rfl
  · rintro tail rfl rfl
    exact he rfl rfl

end Token

/-- Hexadecimal digits do not end a literal. -/
theorem HexNumeral.plain {digits : List Char} {n : Nat} (h : HexNumeral digits n) {quote : Char}
    (hquote : quote = '"' ∨ quote = '\'') : ∀ c ∈ digits, c ∉ [quote, '\\', '\n', '\r'] := by
  obtain ⟨ds, hds, -⟩ := h
  have hall : ∀ digits ∈ ["0123456789abcdef".toList, "0123456789ABCDEF".toList],
      (digits.all fun c =>
      c ∉ ['"', '\\', '\n', '\r'] ∧ c ∉ ['\'', '\\', '\n', '\r']) = true := by decide
  simp only [List.all_eq_true, decide_eq_true_eq] at hall
  induction hds with
  | nil => nofun
  | cons hd _ ih =>
    refine List.forall_mem_cons.mpr ⟨?_, ih⟩
    have := hd.elim (fun h => hall _ List.mem_cons_self _ (List.mem_of_getElem? h))
      fun h => hall _ (List.mem_cons_of_mem _ List.mem_cons_self) _ (List.mem_of_getElem? h)
    rcases hquote with rfl | rfl
    · exact this.1
    · exact this.2

namespace Spelled

variable {quote : Char} {body s : List Char}

/-- A literal goes on to its quote after a spelling. -/
theorem stringTail (hquote : quote = '"' ∨ quote = '\'') (h : Spelled quote body s)
    (rest : List Char) :
    Token.stringTail quote (body ++ quote :: rest) = some (body ++ [quote], rest) := by
  induction h with
  | nil =>
    rcases hquote with rfl | rfl <;> simp [Token.stringTail]
  | plain hc _ ih => exact Token.stringTail_plain hc ih
  | byte length value _ ih =>
    have := Token.stringTail_escape (e := 'x') (by simp)
        (Token.stringTail_plains (value.plain hquote) ih)
    simpa using this
  | unit length units value _ ih =>
    have := Token.stringTail_escape (e := 'u') (by simp)
        (Token.stringTail_plains (value.plain hquote) ih)
    simpa using this
  | pair length length' units value value' _ ih =>
    have hlow := Token.stringTail_escape (e := 'u') (by simp)
        (Token.stringTail_plains (value'.plain hquote) ih)
    have hhigh := Token.stringTail_escape (e := 'u') (by simp)
        (Token.stringTail_plains (value.plain hquote) hlow)
    simpa using hhigh
  | letter he _ ih =>
    refine Token.stringTail_escape (fun heq => ?_) ih
    subst heq
    simp [letterEscapes] at he
  | zero _ _ ih => exact Token.stringTail_escape (by simp) ih
  | itself hc _ ih =>
    refine Token.stringTail_escape (fun heq => ?_) ih
    subst heq
    simp [escapeStarts] at hc
  | @lineEnd t body s ht next ih =>
    have hhead : (body ++ quote :: rest).head? ≠ some '\n' := by
      have := next.head?_ne
      cases body with
      | nil => rcases hquote with rfl | rfl <;> simp
      | cons c body => simpa using this
    simp only [lineEnds, List.mem_cons, List.not_mem_nil, or_false] at ht
    rcases ht with rfl | rfl | rfl | rfl | rfl
    case inr.inr.inl => simp [Token.stringTail, ih, Token.push]
    all_goals exact Token.stringTail_escape (fun _ => hhead) ih

/-- A spelling of a text between quotes is a literal, whatever comes after it, and stands for the
text. -/
theorem stringLiteral (hquote : quote = '"' ∨ quote = '\'') (h : Spelled quote body s) :
    (∀ rest, Token.scan? .stringLiteral (inQuotes quote body ++ rest) =
      some (inQuotes quote body, rest)) ∧
      stringLiteralValue (inQuotes quote body) = String.ofList s := by
  constructor
  · intro rest
    have htail := h.stringTail hquote rest
    rcases hquote with rfl | rfl <;> simp [inQuotes, Token.scan?, Token.scanString,
        htail, Token.push]
  · rw [stringLiteralValue_inQuotes, h.decodeEscapes]

/-- A surrogate pair, a line end of two characters and a quote. -/
theorem stringLiteral_pair :
    Spelled '\'' "\\x4a\\uD83d\\uDe00\\\r\n\\'".toList "J😀'".toList ∧
      (∀ rest, Token.scan? .stringLiteral ("'\\x4a\\uD83d\\uDe00\\\r\n\\''".toList ++ rest) =
        some ("'\\x4a\\uD83d\\uDe00\\\r\n\\''".toList, rest)) ∧
      stringLiteralValue "'\\x4a\\uD83d\\uDe00\\\r\n\\''".toList = "J😀'" := by
  have h : Spelled '\'' "\\x4a\\uD83d\\uDe00\\\r\n\\'".toList "J😀'".toList := by
    refine .byte (show ['4', 'a'].length = 2 from rfl) ⟨[4, 10], ?_, rfl⟩ <|
      .pair (show ['D', '8', '3', 'd'].length = 4 from rfl)
        (show ['D', 'e', '0', '0'].length = 4 from rfl)
        (show Text.charUnits '😀' = [0xD83D, 0xDE00] by decide) ⟨[13, 8, 3, 13], ?_, rfl⟩
        ⟨[13, 14, 0, 0], ?_, rfl⟩ <|
      .lineEnd (t := ['\r', '\n']) (by decide) <| .itself (by decide) .nil
    · exact .cons (.inl rfl) (.cons (.inl rfl) .nil)
    · exact .cons (.inr rfl) (.cons (.inl rfl) (.cons (.inl rfl) (.cons (.inl rfl) .nil)))
    · exact .cons (.inr rfl) (.cons (.inl rfl) (.cons (.inl rfl) (.cons (.inl rfl) .nil)))
  exact ⟨h, h.stringLiteral (.inr rfl)⟩

/-- Every text has a spelling. -/
theorem exists_spelled (hquote : quote = '"' ∨ quote = '\'') (s : List Char) :
    ∃ body, Spelled quote body s := by
  induction s with
  | nil => exact ⟨[], .nil⟩
  | cons c s ih =>
    obtain ⟨body, ih⟩ := ih
    by_cases hc : c ∈ [quote, '\\', '\n', '\r']
    · simp only [List.mem_cons, List.not_mem_nil, or_false] at hc
      rcases hc with rfl | rfl | rfl | rfl
      · exact ⟨_, .itself (by rcases hquote with rfl | rfl <;> decide) ih⟩
      · exact ⟨_, .itself (by decide) ih⟩
      · exact ⟨_, .letter (e := 'n') (by decide) ih⟩
      · exact ⟨_, .letter (e := 'r') (by decide) ih⟩
    · exact ⟨_, .plain hc ih⟩

end Spelled

/-! ### Beginnings of a body -/

/-- A beginning of a body ends outside of escapes: it has no backslash at its end that waits for the
next character. -/
def EndsOutside : List Char → Prop
  | [] => True
  | ['\\'] => False
  | '\\' :: _ :: rest => EndsOutside rest
  | _ :: rest => EndsOutside rest

theorem endsOutside_plain {c : Char} (hc : c ≠ '\\') {rest : List Char} :
    EndsOutside (c :: rest) ↔ EndsOutside rest := by
  rw [EndsOutside]
  · rintro rfl
    exact fun _ => hc rfl
  · rintro e more rfl
    exact fun _ => hc rfl

instance decidableEndsOutside : DecidablePred EndsOutside
  | [] => .isTrue trivial
  | c :: rest =>
    if hc : c = '\\' then
      match rest with
      | [] => .isFalse (hc ▸ id)
      | _ :: rest =>
        have := decidableEndsOutside rest
        decidable_of_iff (EndsOutside rest) (hc ▸ Iff.rfl)
    else
      have := decidableEndsOutside rest
      decidable_of_iff (EndsOutside rest) (endsOutside_plain hc).symm

theorem ne_backslash_of_hexDigit? {c : Char} {d : Nat} (h : hexDigit? c = some d) : c ≠ '\\' := by
  rintro rfl
  revert h
  simp [show hexDigit? '\\' = none by decide]

/-- Digits are read up to a backslash. -/
theorem readHex_append (n acc : Nat) (cs more : List Char) :
    readHex n acc (cs ++ '\\' :: more) =
      ((readHex n acc cs).1, (readHex n acc cs).2 ++ '\\' :: more) := by
  fun_induction readHex n acc cs with
  | case1 => rfl
  | case2 n acc => cases n <;> rfl
  | case3 n acc c cs d hd ih => rw [List.cons_append, readHex, hd]; exact ih
  | case4 n acc c cs hd => rw [List.cons_append, readHex, hd]

theorem EndsOutside.readHex {cs : List Char} (h : EndsOutside cs) (n acc : Nat) :
    EndsOutside (readHex n acc cs).2 := by
  fun_induction ScriptEngine.readHex n acc cs with
  | case1 | case2 | case4 => exact h
  | case3 n acc c cs d hd ih => exact ih ((endsOutside_plain (ne_backslash_of_hexDigit? hd)).mp h)

/-- A pair of escapes does not go on after a body if what comes next is no second half of a pair. -/
theorem lowSurrogate?_append {cs more : List Char} (h : EndsOutside cs)
    (hmore : lowSurrogate? ('\\' :: more) = none) :
    lowSurrogate? (cs ++ '\\' :: more) = (lowSurrogate? cs).map fun p =>
      (p.1, p.2 ++ '\\' :: more) := by
  cases cs with
  | nil => exact hmore
  | cons c cs =>
    by_cases hc : c = '\\'
    · subst hc
      cases cs with
      | nil => exact h.elim
      | cons e cs =>
        by_cases he : e = 'u'
        · subst he
          simp only [List.cons_append, lowSurrogate?, readHex_append]
          rcases ScriptEngine.readHex 4 0 cs with ⟨_ | low, rest⟩
          · rfl
          · dsimp only
            split <;> rfl
        · simp [lowSurrogate?, he]
    · simp [lowSurrogate?, hc]

theorem EndsOutside.lowSurrogate? {cs rest : List Char} {low : Nat} (h : EndsOutside cs)
    (hlow : lowSurrogate? cs = some (low, rest)) : EndsOutside rest := by
  unfold ScriptEngine.lowSurrogate? at hlow
  split at hlow
  · next cs =>
    have hrest := EndsOutside.readHex (show EndsOutside cs from h) 4 0
    split at hlow
    · next hread =>
      rw [hread] at hrest
      split at hlow <;> cases hlow
      exact hrest
    · cases hlow
  · cases hlow

theorem escapedCode_append {code : Nat} {rest more : List Char} (h : EndsOutside rest)
    (hmore : lowSurrogate? ('\\' :: more) = none) :
    escapedCode code (rest ++ '\\' :: more) =
      ((escapedCode code rest).1, (escapedCode code rest).2 ++ '\\' :: more) := by
  unfold escapedCode
  rw [lowSurrogate?_append h hmore]
  split
  · rcases lowSurrogate? rest with _ | ⟨low, tail⟩
    · rw [Option.map_none]
    · rw [Option.map_some]
  · rfl

theorem EndsOutside.escapedCode {rest : List Char} (h : EndsOutside rest) (code : Nat) :
    EndsOutside (escapedCode code rest).2 := by
  unfold ScriptEngine.escapedCode
  split
  · split
    · next hlow => exact h.lowSurrogate? hlow
    · exact h
  · exact h

/-- An escape stands for the same text with more escapes after the body. -/
theorem decodeEscape_append (e : Char) {rest more : List Char} (h : EndsOutside rest)
    (hmore : lowSurrogate? ('\\' :: more) = none) :
    decodeEscape e (rest ++ '\\' :: more) =
      ((decodeEscape e rest).1, (decodeEscape e rest).2 ++ '\\' :: more) := by
  have hhead : (rest ++ '\\' :: more).head?.any Char.isDigit = rest.head?.any Char.isDigit := by
    cases rest <;> rfl
  unfold decodeEscape
  rw [hhead, readHex_append, readHex_append]
  split
  · rfl
  split
  · rfl
  split
  · rcases ScriptEngine.readHex 2 0 rest with ⟨_ | code, tail⟩ <;> rfl
  split
  · have htail := h.readHex 4 0
    rcases hread : ScriptEngine.readHex 4 0 rest with ⟨_ | code, tail⟩
    · rfl
    · rw [hread] at htail
      dsimp only
      rw [escapedCode_append htail hmore]
  split
  · cases rest with
    | nil => rfl
    | cons c rest => by_cases hc : c = '\n' <;> simp [hc]
  split <;> rfl

theorem EndsOutside.decodeEscape {rest : List Char} (h : EndsOutside rest) (e : Char) :
    EndsOutside (decodeEscape e rest).2 := by
  unfold ScriptEngine.decodeEscape
  split
  · exact h
  split
  · exact h
  split
  · have htail := h.readHex 2 0
    split <;> next hread => rwa [hread] at htail
  split
  · have htail := h.readHex 4 0
    split
    · next hread =>
      rw [hread] at htail
      exact htail.escapedCode _
    · next hread => rwa [hread] at htail
  split
  · split
    · exact (endsOutside_plain (by decide)).mp h
    · exact h
  split <;> exact h

/-- A body stands for the same text with more escapes after it. -/
theorem decodeEscapes_append {p more : List Char} (h : EndsOutside p)
    (hmore : lowSurrogate? ('\\' :: more) = none) :
    decodeEscapes (p ++ '\\' :: more) = decodeEscapes p ++ decodeEscapes ('\\' :: more) := by
  fun_induction decodeEscapes p with
  | case1 => rw [List.nil_append, List.nil_append]
  | case2 => exact h.elim
  | case3 e rest ih =>
    have hrest : EndsOutside rest := h
    rw [List.cons_append, List.cons_append,
      decodeEscapes_escape (decodeEscape_append e hrest hmore), ih (hrest.decodeEscape e),
        List.append_assoc]
  | case4 c rest hlone hescape ih =>
    have hc : c ≠ '\\' := by
      rintro rfl
      cases rest with
      | nil => exact hlone rfl rfl
      | cons e rest => exact hescape e rest rfl rfl
    rw [List.cons_append, decodeEscapes_plain hc, ih ((endsOutside_plain hc).mp h),
      List.cons_append]

/-! ### Escapes with too few digits -/

/-- Of too few digits, all are read. -/
theorem readHex_incomplete {n : Nat} {r : List Char} (h : (r.takeWhile Token.isHexDigit).length < n)
    (acc : Nat) : readHex n acc r = (none, r.dropWhile Token.isHexDigit) := by
  induction r generalizing n acc with
  | nil => cases n with
    | zero => cases h
    | succ n => rfl
  | cons c r ih =>
    obtain _ | n := n
    · cases h
    rw [readHex]
    cases hc : Token.isHexDigit c with
    | true =>
      rw [List.takeWhile_cons_of_pos hc, List.length_cons, Nat.add_lt_add_iff_right] at h
      obtain ⟨d, hd⟩ := Token.exists_hexDigit? hc
      rw [hd, List.dropWhile_cons_of_pos hc]
      exact ih h _
    | false =>
      rw [Token.hexDigit?_eq_none_iff.mpr hc, List.dropWhile_cons_of_neg (by simp [hc])]

theorem decodeEscapes_digits {digits : List Char} (h : ∀ c ∈ digits, Token.isHexDigit c = true)
    (rest : List Char) : decodeEscapes (digits ++ rest) = digits ++ decodeEscapes rest := by
  induction digits with
  | nil => rfl
  | cons c digits ih =>
    rw [List.forall_mem_cons] at h
    obtain ⟨d, hd⟩ := Token.exists_hexDigit? h.1
    rw [List.cons_append, decodeEscapes_plain (ne_backslash_of_hexDigit? hd), ih h.2,
      List.cons_append]

section

variable {quote e : Char} {n : Nat} {p r : List Char}

/-- An escape with too few digits stands for its letter, and goes up to the first character that is
no digit. -/
theorem decodeEscape_incomplete (he : (e, n) ∈ [('x', 2), ('u', 4)])
    (hr : (r.takeWhile Token.isHexDigit).length < n) :
    decodeEscape e r = ([e], r.dropWhile Token.isHexDigit) := by
  simp only [List.mem_cons, Prod.mk.injEq, List.not_mem_nil, or_false] at he
  rcases he with ⟨rfl, rfl⟩ | ⟨rfl, rfl⟩ <;> simp [decodeEscape, letterEscape?,
      readHex_incomplete hr]

theorem lowSurrogate?_incomplete (he : (e, n) ∈ [('x', 2), ('u', 4)])
    (hr : (r.takeWhile Token.isHexDigit).length < n) : lowSurrogate? ('\\' :: e :: r) = none := by
  simp only [List.mem_cons, Prod.mk.injEq, List.not_mem_nil, or_false] at he
  rcases he with ⟨rfl, rfl⟩ | ⟨rfl, rfl⟩
  · rfl
  · simp [lowSurrogate?, readHex_incomplete hr]

/-- An escape with too few digits stands for its letter.  The digits that it has are lost, so that
it stands for the text that it is without the backslash only if it has none. -/
theorem stringLiteralValue_incomplete (he : (e, n) ∈ [('x', 2), ('u', 4)]) (hp : EndsOutside p)
    (hr : (r.takeWhile Token.isHexDigit).length < n) :
    stringLiteralValue (inQuotes quote (p ++ '\\' :: e :: r)) =
        stringLiteralValue (inQuotes quote p) ++ String.singleton e ++
          stringLiteralValue (inQuotes quote (r.dropWhile Token.isHexDigit)) ∧
      (stringLiteralValue (inQuotes quote (p ++ '\\' :: e :: r)) =
        stringLiteralValue (inQuotes quote p) ++ String.singleton e ++
          stringLiteralValue (inQuotes quote r) ↔ ∀ c ∈ r.head?, Token.isHexDigit c = false) := by
  have hvalue : decodeEscapes (p ++ '\\' :: e :: r) =
      decodeEscapes p ++ [e] ++ decodeEscapes (r.dropWhile Token.isHexDigit) := by
    rw [decodeEscapes_append hp (lowSurrogate?_incomplete he hr),
      decodeEscapes_escape (decodeEscape_incomplete he hr), List.append_assoc]
  have hrest : decodeEscapes r =
      r.takeWhile Token.isHexDigit ++ decodeEscapes (r.dropWhile Token.isHexDigit) := by
    have hdigits : ∀ c ∈ r.takeWhile Token.isHexDigit, Token.isHexDigit c = true :=
      fun c hc => List.mem_takeWhile_imp hc
    have := decodeEscapes_digits hdigits (r.dropWhile Token.isHexDigit)
    rwa [List.takeWhile_append_dropWhile] at this
  have hsingleton : String.singleton e = String.ofList [e] := by
    rw [String.singleton_eq_ofList]
  simp only [stringLiteralValue_inQuotes, hsingleton, ← String.ofList_append, hvalue, true_and,
    String.ofList_inj, List.append_cancel_left_eq]
  rw [hrest, List.self_eq_append_left]
  cases r with
  | nil => simp
  | cons c r => cases hc : Token.isHexDigit c <;> simp [hc]

/-- A pair whose second half lacks a digit. -/
theorem stringLiteralValue_incomplete_pair :
    EndsOutside "a\\ud83d".toList ∧ ("de0z".toList.takeWhile Token.isHexDigit).length < 4 ∧
      stringLiteralValue "'a\\ud83d\\ude0z'".toList = "a\ufffduz" :=
  have hp : EndsOutside "a\\ud83d".toList := by decide +kernel
  have hr : ("de0z".toList.takeWhile Token.isHexDigit).length < 4 := by decide
  have hvalue :
      stringLiteralValue (inQuotes '\'' ("a\\ud83d".toList ++ '\\' :: 'u' :: "de0z".toList)) = _ :=
    (stringLiteralValue_incomplete (by decide) hp hr).1
  ⟨hp, hr, hvalue.trans (by decide +kernel)⟩

/-- The digit of an escape that lacks another one is lost. -/
theorem stringLiteralValue_lost : stringLiteralValue "'\\x4g'".toList ≠
    stringLiteralValue "''".toList ++ "x" ++ stringLiteralValue "'4g'".toList := by
  decide +kernel

end

end ScriptEngine
