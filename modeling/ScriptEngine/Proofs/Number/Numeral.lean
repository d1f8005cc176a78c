import ScriptEngine.Proofs.Grammar.Scanning
import ScriptEngine.Proofs.Number.Digits
import ScriptEngine.Proofs.Number.Shortest

/-!
# The grammar of numerals

What a decimal numeral looks like and which decimal it denotes.  A literal of a script is read by
the same rules as a text that is converted to a number, except for signs, blanks and the word for
infinity.

## Main definitions

* `Numeral.Denotes` : decimal numerals, with the decimals that they denote.
* `Numeral.PointThenExponent` : a point directly followed by an exponent.
* `Numeral.decimal?` : what both conversions read, one by one with the reader of doubles.

## Main statements

* `Numeral.decimal?_eq_some` : numerals are read as what they denote, and beside them only a point
  followed by an exponent is read.
* `Numeral.Denotes.scan?` : the grammar of scripts takes a numeral as one token.
-/

namespace ScriptEngine

namespace Numeral

/-- A fraction, or none, and its digits. -/
inductive Fraction : List Char → List Char → Prop
  | none : Fraction [] []
  | digits {ds : List Char} (hds : Digits ds) : Fraction ('.' :: ds) ds

/-- The letter of an exponent. -/
def ExponentLetter (c : Char) : Prop :=
  c = 'e' ∨ c = 'E'

/-- An exponent, or none, and its value. -/
inductive Exponent : List Char → Int → Prop
  | none : Exponent [] 0
  | unsigned {c : Char} {ds : List Char} (hc : ExponentLetter c) (hne : ds ≠ []) (hds : Digits ds) :
      Exponent (c :: ds) (digitsValue ds)
  | plus {c : Char} {ds : List Char} (hc : ExponentLetter c) (hne : ds ≠ []) (hds : Digits ds) :
      Exponent (c :: '+' :: ds) (digitsValue ds)
  | minus {c : Char} {ds : List Char} (hc : ExponentLetter c) (hne : ds ≠ []) (hds : Digits ds) :
      Exponent (c :: '-' :: ds) (-digitsValue ds)

/-- A decimal numeral denotes a decimal: digits with an optional fraction, a digit on some side of
the point, and an optional exponent. -/
inductive Denotes : List Char → Decimal → Prop
  | intro {whole point fraction exponent : List Char} {e : Int} (hwhole : Digits whole)
      (hfraction : Fraction point fraction) (hne : whole ≠ [] ∨ fraction ≠ [])
        (he : Exponent exponent e) :
      Denotes (whole ++ point ++ exponent) ⟨digitsValue (whole ++ fraction), e - fraction.length⟩

/-- A point directly followed by an exponent. -/
inductive PointThenExponent : List Char → Int → Prop
  | intro {exponent : List Char} {e : Int} (hne : exponent ≠ []) (he : Exponent exponent e) :
      PointThenExponent ('.' :: exponent) e

/-- What a text without a sign is read as, whether in a literal or in a string: the numerals, and a
point directly followed by an exponent. -/
def decimal? (cs : List Char) : Option Decimal :=
  let whole := cs.takeWhile Char.isDigit
  let (pointed, fraction, tail) := match cs.dropWhile Char.isDigit with
    | '.' :: rest => (true, rest.takeWhile Char.isDigit, rest.dropWhile Char.isDigit)
    | rest => (false, [], rest)
  if whole.isEmpty && fraction.isEmpty && !(pointed && !tail.isEmpty) then none
  else
    (exponent? tail).map fun e =>
      ⟨digitsValue (whole ++ fraction), e - (fraction.length : Int)⟩

/-! ### Beginnings -/

theorem digit_ne {c d : Char} (hc : c.isDigit = true) (hd : d.isDigit = false) : c ≠ d := by
  rintro rfl
  rw [hc] at hd
  cases hd

theorem Exponent.head {text : List Char} {e : Int} (h : Exponent text e) {c : Char}
    (hc : text.head? = some c) :
    ExponentLetter c := by
  cases h <;> cases hc <;> assumption

theorem ExponentLetter.not_digit {c : Char} (h : ExponentLetter c) : c.isDigit = false := by
  rcases h with rfl | rfl <;> rfl

theorem ExponentLetter.ne_point {c : Char} (h : ExponentLetter c) : c ≠ '.' := by
  rcases h with rfl | rfl <;> decide

/-! ### Reading -/

theorem exponent?_eq_some {text : List Char} {e : Int} :
    exponent? text = some e ↔ Exponent text e := by
  have hletter {c : Char} : (c == 'e' || c == 'E') = true ↔
      ExponentLetter c := by simp [ExponentLetter]
  have hdigits {ds : List Char} : (ds.isEmpty || !ds.all Char.isDigit) = false ↔
      ds ≠ [] ∧ Digits ds := by
    simp [Digits]
  constructor
  · intro h
    unfold exponent? at h
    split at h
    · cases h
      exact .none
    · next c rest =>
      split at h
      · next hc =>
        have hc := hletter.mp hc
        split at h
        next negative ds hsplit =>
        split at h
        · cases h
        · next hds =>
          obtain ⟨hne, hds⟩ := hdigits.mp (Bool.eq_false_iff.mpr hds)
          cases h
          split at hsplit <;> cases hsplit
          · exact .minus hc hne hds
          · exact .plus hc hne hds
          · exact .unsigned hc hne hds
      · cases h
  · intro h
    cases h with
    | none => rfl
    | @unsigned c ds hc hne hds =>
      -- a digit is not taken for a sign
      obtain ⟨d, tail, rfl⟩ := List.exists_cons_of_ne_nil hne
      have hminus : d ≠ '-' := digit_ne (hds d List.mem_cons_self) rfl
      have hplus : d ≠ '+' := digit_ne (hds d List.mem_cons_self) rfl
      simp [exponent?, hletter.mpr hc, hminus, hplus, show (tail.all Char.isDigit) = true from
        List.all_eq_true.mpr fun c hc => hds c (List.mem_cons_of_mem _ hc),
          hds d List.mem_cons_self]
    | plus hc hne hds | minus hc hne hds =>
      simp [exponent?, hletter.mpr hc, hdigits.mpr ⟨hne, hds⟩]

/-- How a text with a point after its first digits is read. -/
theorem decimal?_point {whole fraction tail : List Char} (hwhole : Digits whole)
    (hfraction : Digits fraction) (htail : ∀ c, tail.head? = some c → c.isDigit = false) :
    decimal? (whole ++ '.' :: (fraction ++ tail)) =
      if whole = [] ∧ fraction = [] ∧ tail = [] then none
      else (exponent? tail).map fun e =>
        ⟨digitsValue (whole ++ fraction), e - fraction.length⟩ := by
  have hpoint : ∀ c, ('.' :: (fraction ++ tail)).head? = some c → c.isDigit = false :=
    fun c hc => by
    cases hc
    rfl
  obtain ⟨htake, hdrop⟩ := Token.run_append hwhole hpoint
  obtain ⟨htake', hdrop'⟩ := Token.run_append hfraction htail
  simp [decimal?, htake, hdrop, htake', hdrop', and_assoc]

/-- How a text without a point after its first digits is read. -/
theorem decimal?_plain {whole tail : List Char} (hwhole : Digits whole)
    (htail : ∀ c, tail.head? = some c → c.isDigit = false ∧ c ≠ '.') :
    decimal? (whole ++ tail) =
      if whole = [] then none else (exponent? tail).map fun e => ⟨digitsValue whole, e⟩ := by
  obtain ⟨htake, hdrop⟩ := Token.run_append hwhole fun c hc => (htail c hc).1
  have hpoint (rest : List Char) : tail ≠ '.' :: rest := by
    rintro rfl
    exact (htail '.' rfl).2 rfl
  simp only [decimal?, htake, hdrop]
  simp

/-- How the reader of doubles takes a text with a point after its first digits. -/
theorem unsigned?_point {whole fraction tail : List Char} (hwhole : Digits whole)
    (hfraction : Digits fraction) (htail : ∀ c, tail.head? = some c → c.isDigit = false) :
    unsigned? (whole ++ '.' :: (fraction ++ tail)) =
      if whole = [] ∧ fraction = [] then none
      else (exponent? tail).map fun e =>
        ⟨digitsValue (whole ++ fraction), e - fraction.length⟩ := by
  have hpoint : ∀ c, ('.' :: (fraction ++ tail)).head? = some c → c.isDigit = false :=
    fun c hc => by
    cases hc
    rfl
  obtain ⟨htake, hdrop⟩ := Token.run_append hwhole hpoint
  obtain ⟨htake', hdrop'⟩ := Token.run_append hfraction htail
  simp [unsigned?, htake, hdrop, htake', hdrop']

/-- It takes a text without a point after its first digits as the conversions do. -/
theorem unsigned?_plain {whole tail : List Char} (hwhole : Digits whole)
    (htail : ∀ c, tail.head? = some c → c.isDigit = false ∧ c ≠ '.') :
    unsigned? (whole ++ tail) = decimal? (whole ++ tail) := by
  obtain ⟨htake, hdrop⟩ := Token.run_append hwhole fun c hc => (htail c hc).1
  have hpoint (rest : List Char) : tail ≠ '.' :: rest := by
    rintro rfl
    exact (htail '.' rfl).2 rfl
  simp only [unsigned?, decimal?, htake, hdrop]
  simp

/-- A text is digits with something after them: a point and more digits, or what does not begin with
a point. -/
theorem exists_split (text : List Char) :
    (∃ whole fraction tail, text = whole ++ '.' :: (fraction ++ tail) ∧ Digits whole ∧
      Digits fraction ∧
      ∀ c, tail.head? = some c → c.isDigit = false) ∨
    ∃ whole tail, text = whole ++ tail ∧ Digits whole ∧
      ∀ c, tail.head? = some c → c.isDigit = false ∧ c ≠ '.' := by
  have hdigits (cs : List Char) : Digits (cs.takeWhile Char.isDigit) :=
    fun c hc => List.mem_takeWhile_imp hc
  have hafter (cs : List Char) (c : Char) (hc : (cs.dropWhile Char.isDigit).head? = some c) :
      c.isDigit = false := by
    simpa [hc] using List.head?_dropWhile_not Char.isDigit cs
  have hsplit (cs : List Char) :=
    (List.takeWhile_append_dropWhile (p := Char.isDigit) (l := cs)).symm
  by_cases hpoint : ∃ rest, text.dropWhile Char.isDigit = '.' :: rest
  · obtain ⟨rest, hrest⟩ := hpoint
    refine .inl ⟨_, _, _, ?_, hdigits text, hdigits rest, hafter rest⟩
    rw [← hsplit rest, ← hrest]
    exact hsplit text
  · refine .inr ⟨_, _, hsplit text, hdigits text, fun c hc => ⟨hafter text c hc, ?_⟩⟩
    rintro rfl
    exact hpoint (List.head?_eq_some_iff.mp hc)

/-- What is read as a decimal: the numerals, and a point followed by an exponent, which is read as
zero. -/
theorem decimal?_eq_some {text : List Char} {d : Decimal} :
    decimal? text = some d ↔ Denotes text d ∨ ∃ e, PointThenExponent text e ∧ d = ⟨0, e⟩ := by
  constructor
  · intro h
    rcases exists_split text with ⟨whole, fraction, tail, rfl, hwhole, hfraction, htail⟩ |
      ⟨whole, tail, rfl, hwhole, htail⟩
    · rw [decimal?_point hwhole hfraction htail] at h
      split at h
      · cases h
      · next hsome =>
        obtain ⟨e, he, rfl⟩ := Option.map_eq_some_iff.mp h
        have he := exponent?_eq_some.mp he
        by_cases hne : whole ≠ [] ∨ fraction ≠ []
        · have hdenotes := Denotes.intro hwhole (.digits hfraction) hne he
          rw [List.append_assoc] at hdenotes
          exact .inl hdenotes
        · simp only [not_or, ne_eq, not_not] at hne
          obtain ⟨rfl, rfl⟩ := hne
          exact .inr ⟨e, .intro (fun htail => hsome ⟨rfl, rfl, htail⟩) he, by simp⟩
    · rw [decimal?_plain hwhole htail] at h
      split at h
      · cases h
      · next hne =>
        obtain ⟨e, he, rfl⟩ := Option.map_eq_some_iff.mp h
        have hdenotes := Denotes.intro hwhole .none (.inl hne) (exponent?_eq_some.mp he)
        simp only [List.append_nil, List.length_nil, Nat.cast_zero, Int.sub_zero] at hdenotes
        exact .inl hdenotes
  · rintro (⟨hwhole, hfraction, hne, he⟩ | ⟨e, ⟨hne, he⟩, rfl⟩)
    · rename_i exponent e
      cases hfraction with
      | none =>
        have hne := hne.resolve_right fun h => h rfl
        rw [List.append_nil, decimal?_plain hwhole fun c hc =>
          ⟨(he.head hc).not_digit, (he.head hc).ne_point⟩,
            if_neg hne, exponent?_eq_some.mpr he]
        simp
      | digits hds =>
        rw [List.append_assoc, List.cons_append, decimal?_point hwhole hds fun c hc =>
          (he.head hc).not_digit,
            if_neg fun hempty => hne.elim (· hempty.1) (· hempty.2.1), exponent?_eq_some.mpr he]
        rfl
    · have hempty : Digits [] := nofun
      have hread := decimal?_point hempty hempty fun c hc => (he.head hc).not_digit
      rw [if_neg fun hempty => hne hempty.2.2, exponent?_eq_some.mpr he] at hread
      simpa using hread

/-! ### Characters -/

/-- A character of a decimal numeral. -/
def IsNumeralChar (c : Char) : Prop :=
  c.isDigit = true ∨ c ∈ ['.', 'e', 'E', '+', '-']

theorem isNumeralChar_iff {c : Char} : isNumeralChar c = true ↔ IsNumeralChar c := by
  rw [isNumeralChar, Bool.or_eq_true, List.contains_iff_mem, IsNumeralChar]

theorem ExponentLetter.isNumeralChar {c : Char} (h : ExponentLetter c) : IsNumeralChar c := by
  rcases h with rfl | rfl <;> exact .inr (by decide)

theorem Digits.isNumeralChar {ds : List Char} (h : Digits ds) : ∀ c ∈ ds, IsNumeralChar c :=
  fun c hc => .inl (h c hc)

theorem Exponent.isNumeralChar {text : List Char} {e : Int} (h : Exponent text e) :
    ∀ c ∈ text, IsNumeralChar c := by
  cases h with
  | none => exact nofun
  | unsigned hc _ hds => exact List.forall_mem_cons.mpr ⟨hc.isNumeralChar, hds.isNumeralChar⟩
  | plus hc _ hds | minus hc _ hds =>
    exact List.forall_mem_cons.mpr ⟨hc.isNumeralChar, List.forall_mem_cons.mpr ⟨.inr (by decide),
      hds.isNumeralChar⟩⟩

theorem Fraction.isNumeralChar {text ds : List Char} (h : Fraction text ds) :
    ∀ c ∈ text, IsNumeralChar c := by
  cases h with
  | none => exact nofun
  | digits hds => exact List.forall_mem_cons.mpr ⟨.inr (by decide), hds.isNumeralChar⟩

theorem Denotes.isNumeralChar {text : List Char} {d : Decimal} (h : Denotes text d) :
    ∀ c ∈ text, IsNumeralChar c := by
  obtain ⟨hwhole, hfraction, -, he⟩ := h
  intro c hc
  rcases List.mem_append.mp hc with hc | hc
  · exact (List.mem_append.mp hc).elim (hwhole.isNumeralChar c) (hfraction.isNumeralChar c)
  · exact he.isNumeralChar c hc

/-- A numeral begins with a digit or a point. -/
theorem Denotes.exists_head {text : List Char} {d : Decimal} (h : Denotes text d) :
    ∃ c rest, text = c :: rest ∧ (c.isDigit = true ∨ c = '.') := by
  obtain ⟨hwhole, hfraction, hne, he⟩ := h
  rename_i whole point fraction exponent e
  cases whole with
  | cons c rest => exact ⟨c, rest ++ point ++ exponent, rfl, .inl (hwhole c List.mem_cons_self)⟩
  | nil =>
    cases hfraction with
    | none => exact absurd rfl (hne.resolve_left fun h => h rfl)
    | digits hds => exact ⟨'.', fraction ++ exponent, rfl, .inr rfl⟩

theorem IsNumeralChar.not_blank {c : Char} (h : IsNumeralChar c) :
    Text.isNumericBlank c = false := by
  have hrange : 43 ≤ c.toNat ∧ c.toNat ≤ 101 := by
    rcases h with h | h
    · have h : 48 ≤ c.toNat ∧
          c.toNat ≤ 57 := by simpa [Char.isDigit, UInt32.le_iff_toNat_le] using h
      omega
    · simp only [List.mem_cons, List.not_mem_nil, or_false] at h
      rcases h with rfl | rfl | rfl | rfl | rfl <;> decide
  have hall : ∀ n ≤ 101, 43 ≤ n → Text.isNumericBlank (Char.ofNat n) = false := by decide
  rw [← Char.ofNat_toNat c]
  exact hall c.toNat hrange.2 hrange.1

/-- No numeral begins as a hexadecimal one. -/
theorem hexDigits?_of_isNumeralChar {text : List Char} (h : ∀ c ∈ text, IsNumeralChar c) :
    hexDigits? text = none := by
  unfold hexDigits?
  split
  · exact absurd (h 'x' (by simp)) (by simp [IsNumeralChar])
  · exact absurd (h 'X' (by simp)) (by simp [IsNumeralChar])
  · rfl

/-! ### Tokens -/

theorem Exponent.exponentPart {text : List Char} {e : Int} (h : Exponent text e) :
    Token.exponentPart text = (text, []) := by
  have hletter {c : Char} (hc : ExponentLetter c) : (c == 'e' || c == 'E') = true := by
    simpa [ExponentLetter] using hc
  have hrun {ds : List Char} (hds : Digits ds) : Token.run Char.isDigit ds = (ds, []) := by
    have hsplit : (ds ++ []).takeWhile Char.isDigit = ds ∧ (ds ++ []).dropWhile Char.isDigit = [] :=
      Token.run_append hds nofun
    rw [List.append_nil] at hsplit
    exact Prod.ext hsplit.1 hsplit.2
  cases h with
  | none => rfl
  | @unsigned c ds hc hne hds =>
    obtain ⟨d, tail, rfl⟩ := List.exists_cons_of_ne_nil hne
    have hminus : d ≠ '-' := digit_ne (hds d List.mem_cons_self) rfl
    have hplus : d ≠ '+' := digit_ne (hds d List.mem_cons_self) rfl
    simp [Token.exponentPart, hletter hc, hminus, hplus, hrun hds]
  | @plus c ds hc hne hds | @minus c ds hc hne hds =>
    obtain ⟨d, tail, rfl⟩ := List.exists_cons_of_ne_nil hne
    simp [Token.exponentPart, hletter hc, hrun hds]

/-- The grammar of scripts takes a numeral as one token. -/
theorem Denotes.scan? {text : List Char} {d : Decimal} (h : Denotes text d) :
    Token.numericLiteral.scan? text = some (text, []) := by
  have hhex : Token.scanHex text = none := by
    unfold Token.scanHex
    split
    · next x rest =>
      have hx := h.isNumeralChar x (by simp)
      rw [if_neg]
      rintro hx'
      rcases (by simpa using hx' : x = 'x' ∨ x = 'X') with rfl | rfl <;> simp [IsNumeralChar] at hx
    · rfl
  suffices hdecimal : Token.scanDecimal text = some (text, []) by
    change Token.scanNumber text = _
    simp [Token.scanNumber, hhex, hdecimal]
  obtain ⟨hwhole, hfraction, hne, he⟩ := h
  rename_i whole point fraction exponent e
  suffices hsignificand : Token.significand (whole ++ point ++ exponent) =
      some (whole ++ point, exponent) by
    simp only [Token.scanDecimal, hsignificand, Option.map_some, he.exponentPart]
  have hstop (c : Char) (hc : exponent.head? = some c) := (he.head hc).not_digit
  cases hfraction with
  | none =>
    have hne := hne.resolve_right fun h => h rfl
    have hpoint (rest : List Char) : exponent ≠ '.' :: rest :=
      fun h => (he.head (h ▸ rfl)).ne_point rfl
    obtain ⟨c, tail, rfl⟩ := List.exists_cons_of_ne_nil hne
    obtain ⟨htake, hdrop⟩ := Token.run_append hwhole hstop
    rw [List.append_nil]
    simp only [Token.significand, Token.run, htake, hdrop]
  | digits hds =>
    have hpoint : ∀ c, ('.' :: (fraction ++ exponent)).head? = some c → c.isDigit = false :=
      fun c hc => by
      cases hc
      rfl
    obtain ⟨htake, hdrop⟩ := Token.run_append hwhole hpoint
    obtain ⟨htake', hdrop'⟩ := Token.run_append hds hstop
    rw [List.append_assoc, List.cons_append]
    cases whole with
    | cons c tail => simp only [Token.significand, Token.run, htake, hdrop, htake', hdrop']
    | nil =>
      obtain ⟨c, tail, rfl⟩ := List.exists_cons_of_ne_nil (hne.resolve_left fun h => h rfl)
      rw [List.nil_append] at htake hdrop
      simp only [Token.significand, Token.run, htake, hdrop, htake', hdrop', List.nil_append]

/-- What the grammar takes as a decimal numeral is one. -/
theorem exists_denotes {cs text rest : List Char} (h : Token.scanDecimal cs = some (text, rest)) :
    ∃ d, Denotes text d := by
  obtain ⟨-, significand, exponent, rfl, hs, he⟩ := Token.of_scanDecimal h
  obtain ⟨e, he⟩ : ∃ e, Exponent exponent e := by
    rcases he with rfl | ⟨c, sign, ds, rfl, hc, hsign, hne, hds⟩
    · exact ⟨0, .none⟩
    · rcases hsign with rfl | rfl | rfl
      · exact ⟨_, .unsigned hc hne hds⟩
      · exact ⟨_, .plus hc hne hds⟩
      · exact ⟨_, .minus hc hne hds⟩
  cases hs with
  | pointed hw hf hne => exact ⟨_, .intro hw (.digits hf) hne he⟩
  | whole hw hne =>
    have hdenotes := Denotes.intro hw .none (.inl hne) he
    rw [List.append_nil] at hdenotes
    exact ⟨_, hdenotes⟩

end Numeral

end ScriptEngine
