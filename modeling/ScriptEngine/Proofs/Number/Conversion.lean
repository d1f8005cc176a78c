import ScriptEngine.Proofs.Grammar.Reading
import ScriptEngine.Proofs.Number.Completion

/-!
# Texts as numbers

A text without the blanks around it is converted to a number if it is empty, the word for infinity
or a decimal numeral with an optional sign, or a hexadecimal numeral.  Beside these a point directly
followed by an exponent is taken for zero.  A literal of a script is the number that its text is
converted to.

## Main definitions

* `Numeral.IsNumber` : the grammar of texts that denote a number.
* `Numeral.IsBarePoint` : a point directly followed by an exponent, with an optional sign.

## Main statements

* `trimmedToNumber_signed` : what a string that is no hexadecimal numeral is converted to.
* `stringToNumber_isNaN` : which texts are not converted to a number.
* `stringToNumber_point` : a text that is converted though it is none of the grammar.
* `stringToNumber_literal` : a literal is the number that its text is converted to.
-/

namespace ScriptEngine

open Binary64 (Nonnegative ofFloat)

namespace Numeral

/-- A sign, or none. -/
def IsSign (text : List Char) : Prop :=
  text = [] ∨ text = ['+'] ∨ text = ['-']

/-- The texts that denote a number, without blanks around it. -/
inductive IsNumber : List Char → Prop
  | infinity {sign : List Char} (hsign : IsSign sign) : IsNumber (sign ++ "Infinity".toList)
  | hexadecimal {x : Char} {digits : List Char} (hx : x = 'x' ∨ x = 'X') (hne : digits ≠ [])
      (hdigits : ∀ c ∈ digits, Token.isHexDigit c = true) : IsNumber ('0' :: x :: digits)
  | decimal {sign text : List Char} {d : Decimal} (hsign : IsSign sign) (htext : Denotes text d) :
      IsNumber (sign ++ text)

/-- A point directly followed by an exponent, with a sign or without. -/
inductive IsBarePoint : List Char → Prop
  | intro {sign text : List Char} {e : Int} (hsign : IsSign sign)
    (htext : PointThenExponent text e) :
      IsBarePoint (sign ++ text)

/-! ### Hexadecimal digits -/

theorem hexDigit?_lt {c : Char} {n : Nat} (h : hexDigit? c = some n) : n < 16 := by
  have hle {a b : Char} (hab : a ≤ b) : a.toNat ≤ b.toNat := hab
  unfold hexDigit? at h
  split at h
  · next hdigit =>
    have hdigit : 48 ≤ c.toNat ∧
        c.toNat ≤ 57 := by simpa [Char.isDigit, UInt32.le_iff_toNat_le] using hdigit
    cases h
    rw [show '0'.toNat = 48 from rfl]
    omega
  · split at h
    · next hsmall =>
      simp only [Bool.and_eq_true, decide_eq_true_eq] at hsmall
      have := hle hsmall.1
      have := hle hsmall.2
      cases h
      rw [show 'a'.toNat = 97 from rfl] at *
      rw [show 'f'.toNat = 102 from rfl] at *
      omega
    · split at h
      · next hlarge =>
        simp only [Bool.and_eq_true, decide_eq_true_eq] at hlarge
        have := hle hlarge.1
        have := hle hlarge.2
        cases h
        rw [show 'A'.toNat = 65 from rfl] at *
        rw [show 'F'.toNat = 70 from rfl] at *
        omega
      · cases h

/-- Only hexadecimal digits have a value. -/
theorem hexValue?_eq_none_iff {cs : List Char} {acc : Float} :
    hexValue? cs acc = none ↔ ¬ ∀ c ∈ cs, Token.isHexDigit c = true := by
  induction cs generalizing acc with
  | nil => simp [hexValue?]
  | cons c cs ih =>
    rw [hexValue?, List.forall_mem_cons]
    cases hc : hexDigit? c with
    | none => simp [Token.hexDigit?_eq_none_iff.mp hc]
    | some n =>
      have hdigit : Token.isHexDigit c = true := by
        by_contra hnot
        rw [Token.hexDigit?_eq_none_iff.mpr (Bool.eq_false_iff.mpr hnot)] at hc
        cases hc
      dsimp only
      rw [ih, hdigit]
      simp

/-- The value of hexadecimal digits is a number. -/
theorem nonnegative_hexValue? {cs : List Char} {acc x : Float} (hacc : (ofFloat acc).Nonnegative)
    (h : hexValue? cs acc = some x) : (ofFloat x).Nonnegative := by
  induction cs generalizing acc with
  | nil =>
    cases h
    exact hacc
  | cons c cs ih =>
    rw [hexValue?] at h
    split at h
    · next n hn => exact ih (hacc.accumulate (hexDigit?_lt hn)) h
    · cases h

end Numeral

/-! ### Decimals -/

theorem nonnegative_nearestFloat (num den : Nat) :
    (ofFloat (nearestFloat false num den)).Nonnegative := by
  have hle : nearestBits num den ≤ infinityBits := by
    unfold nearestBits
    split
    · exact Nat.zero_le _
    · exact min_le_right _ _
  have hword : nearestBits num den % 2 ^ 64 = nearestBits num den :=
    Nat.mod_eq_of_lt (hle.trans_lt (by decide))
  unfold nearestFloat
  dsimp only
  rw [if_neg (by decide), Binary64.ofFloat_ofBits, UInt64.toNat_ofNat', hword]
  exact Binary64.nonnegative_ofBits hle

/-- The double nearest to a decimal is a number. -/
theorem Decimal.nonnegative_toFloat (d : Decimal) : (ofFloat d.toFloat).Nonnegative := by
  unfold toFloat
  split
  · decide
  · split
    · decide
    · split
      · decide
      · split <;> exact nonnegative_nearestFloat ..

/-! ### Signs -/

namespace Numeral

theorem exists_sign (text : List Char) : ∃ sign, IsSign sign ∧ text = sign ++ (signed text).2 := by
  unfold signed
  split
  · exact ⟨['-'], .inr (.inr rfl), rfl⟩
  · exact ⟨['+'], .inr (.inl rfl), rfl⟩
  · exact ⟨[], .inl rfl, rfl⟩

theorem signed_append {sign text : List Char} (hsign : IsSign sign)
    (htext : ∃ c rest, text = c :: rest ∧ c ≠ '-' ∧ c ≠ '+') :
    signed (sign ++ text) = (sign == ['-'], text) := by
  obtain ⟨c, rest, rfl, hminus, hplus⟩ := htext
  rcases hsign with rfl | rfl | rfl
  · simp [signed, hminus, hplus]
  · rfl
  · rfl

theorem signed_infinity {sign : List Char} (hsign : IsSign sign) :
    signed (sign ++ "Infinity".toList) = (sign == ['-'], "Infinity".toList) :=
  signed_append hsign ⟨'I', _, rfl, by decide, by decide⟩

/-- The number of a text without a sign. -/
def magnitude (text : List Char) : Float :=
  if text == "Infinity".toList then positiveInfinity
  else ((decimal? text).map Decimal.toFloat).getD notANumber

end Numeral

open Numeral

theorem neg_notANumber : -notANumber = notANumber :=
  Binary64.ofFloat_injective (by decide)

/-- A text with a sign or without is the word for infinity just if its magnitude is this word. -/
theorem signed_eq_infinity (text : List Char) :
    (signed text).2 = "Infinity".toList ↔
      text = "Infinity".toList ∨ text = "+Infinity".toList ∨ text = "-Infinity".toList := by
  constructor
  · intro h
    obtain ⟨sign, hsign, heq⟩ := exists_sign text
    rw [h] at heq
    rcases hsign with rfl | rfl | rfl
    · exact .inl heq
    · exact .inr (.inl heq)
    · exact .inr (.inr heq)
  · rintro (rfl | rfl | rfl) <;> rfl

/-- What is read has the characters of numerals only, has no sign and is more than a point. -/
theorem decimal?_spec {text : List Char} {d : Decimal} (h : decimal? text = some d) :
    (∀ c ∈ text, IsNumeralChar c) ∧ (∀ c, text.head? = some c → isSign c = false) ∧
    text ≠ ['.'] := by
  have hdigit {c : Char} (hc : c.isDigit = true) : isSign c = false := by
    rw [isSign, beq_eq_false_iff_ne.mpr (digit_ne hc rfl),
      beq_eq_false_iff_ne.mpr (digit_ne hc rfl), Bool.or_false]
  have hpoint : text ≠ ['.'] := by
    rintro rfl
    exact Option.some_ne_none d (h.symm.trans rfl)
  rcases decimal?_eq_some.mp h with h | ⟨e, ⟨-, he⟩, -⟩
  · refine ⟨h.isNumeralChar, fun c hc => ?_, hpoint⟩
    obtain ⟨first, rest, rfl, hfirst⟩ := h.exists_head
    obtain rfl : first = c := Option.some.inj hc
    rcases hfirst with hfirst | rfl
    · exact hdigit hfirst
    · rfl
  · refine ⟨List.forall_mem_cons.mpr ⟨.inr (by decide), he.isNumeralChar⟩, fun c hc => ?_, hpoint⟩
    obtain rfl : '.' = c := Option.some.inj hc
    rfl

theorem dropWhile_isSign {text : List Char}
    (h : ∀ c, (signed text).2.head? = some c → isSign c = false) :
    text.dropWhile isSign = (signed text).2 := by
  have hdrop {rest : List Char} (hrest : ∀ c, rest.head? = some c → isSign c = false) :
      rest.dropWhile isSign = rest := by
    cases rest with
    | nil => rfl
    | cons c rest => rw [List.dropWhile_cons_of_neg (by simp [hrest c rfl])]
  unfold signed at h ⊢
  split at h
  · rw [List.dropWhile_cons_of_pos rfl, hdrop h]
  · rw [List.dropWhile_cons_of_pos rfl, hdrop h]
  · exact hdrop h

/-- A text has the characters of numerals if the text after its sign has. -/
theorem all_isNumeralChar {text : List Char} :
    text.all isNumeralChar = true ↔ ∀ c ∈ (signed text).2, IsNumeralChar c := by
  obtain ⟨sign, hsign, heq⟩ := exists_sign text
  have hall : ∀ c ∈ sign, IsNumeralChar c := by
    rcases hsign with rfl | rfl | rfl
    · exact nofun
    · exact List.forall_mem_singleton.mpr (.inr (by decide))
    · exact List.forall_mem_singleton.mpr (.inr (by decide))
  rw [List.all_eq_true]
  constructor
  · intro h c hc
    refine isNumeralChar_iff.mp (h c ?_)
    rw [heq]
    exact List.mem_append_right _ hc
  · intro h c hc
    rw [heq] at hc
    exact isNumeralChar_iff.mpr ((List.mem_append.mp hc).elim (hall c) (h c))

/-- A text that is rejected before it is read has no decimal. -/
theorem decimal?_of_rejected {text : List Char}
    (h : text.all isNumeralChar = false ∨ text.dropWhile isSign = ['.']) :
    decimal? (signed text).2 = none := by
  refine Option.eq_none_iff_forall_not_mem.mpr fun d hd => ?_
  obtain ⟨hall, hsign, hne⟩ := decimal?_spec hd
  rcases h with h | h
  · rw [all_isNumeralChar.mpr hall] at h
    cases h
  · rw [dropWhile_isSign hsign] at h
    exact hne h

/-- A text that is not rejected is read by its magnitude. -/
theorem double?_of_accepted {text : List Char} (hall : text.all isNumeralChar = true)
    (hpoint : text.dropWhile isSign ≠ ['.']) :
    double? (completed text) = ((decimal? (signed text).2).map Decimal.toFloat).map
      fun x => if (signed text).1 then -x else x := by
  refine double?_completed (fun c hc => all_isNumeralChar.mp hall c (List.mem_of_head? hc))
    fun heq => ?_
  refine hpoint ((dropWhile_isSign fun c hc => ?_).trans heq)
  rw [heq] at hc
  obtain rfl : '.' = c := Option.some.inj hc
  rfl

/-- A text that does not begin as a hexadecimal numeral is converted by its magnitude. -/
theorem trimmedToNumber_signed {text : List Char} (hne : text ≠ [])
    (hhex : hexDigits? text = none) :
    trimmedToNumber text =
      if (signed text).1 then -magnitude (signed text).2 else magnitude (signed text).2 := by
  by_cases hinfinity : (signed text).2 = "Infinity".toList
  · rcases (signed_eq_infinity text).mp hinfinity with rfl | rfl | rfl <;> rfl
  · have hempty : text.isEmpty = false := by simpa using hne
    rw [magnitude, beq_eq_false_iff_ne.mpr hinfinity, if_neg Bool.false_ne_true]
    rw [signed_eq_infinity, not_or, not_or] at hinfinity
    unfold trimmedToNumber
    rw [hempty, if_neg Bool.false_ne_true, hhex]
    dsimp only
    rw [beq_eq_false_iff_ne.mpr hinfinity.1, beq_eq_false_iff_ne.mpr hinfinity.2.1,
      beq_eq_false_iff_ne.mpr hinfinity.2.2, Bool.or_false, if_neg Bool.false_ne_true,
      if_neg Bool.false_ne_true]
    have hnone (h : decimal? (signed text).2 = none) : notANumber =
        if (signed text).1 then -((decimal? (signed text).2).map Decimal.toFloat).getD notANumber
        else ((decimal? (signed text).2).map Decimal.toFloat).getD notANumber := by
      rw [h, Option.map_none, Option.getD_none, neg_notANumber, ite_self]
    split
    · next hchar => exact hnone (decimal?_of_rejected (.inl (by simpa using hchar)))
    · next hchar =>
      split
      · next hpoint => exact hnone (decimal?_of_rejected (.inr (beq_iff_eq.mp hpoint)))
      · next hpoint =>
        rw [double?_of_accepted (by simpa using hchar) fun heq => hpoint (beq_iff_eq.mpr heq)]
        cases hd : decimal? (signed text).2 with
        | some d => simp only [Option.map_some, Option.getD_some]
        | none =>
          rw [hd] at hnone
          exact hnone rfl

/-! ### Numbers and what is none -/

/-- The negative of a number is a number. -/
theorem isNaN_neg (x : Float) : (-x).isNaN = true ↔ x.isNaN = true := by
  rw [Binary64.isNaN_iff, Binary64.isNaN_iff, Binary64.ofFloat_neg]
  cases ofFloat x <;> simp [Binary64.opposite]

theorem Binary64.Nonnegative.isNaN {x : Float} (h : (ofFloat x).Nonnegative) : x.isNaN = false :=
  Bool.eq_false_iff.mpr fun hnan => h.ne_nan ((Binary64.isNaN_iff x).mp hnan)

theorem isNaN_notANumber : notANumber.isNaN = true := by decide

theorem isNaN_magnitude (text : List Char) :
    (magnitude text).isNaN = true ↔ text ≠ "Infinity".toList ∧ decimal? text = none := by
  unfold magnitude
  split
  · next h =>
    have hpositive : (ofFloat positiveInfinity).Nonnegative := by decide
    rw [hpositive.isNaN, ← beq_iff_eq.mp h]
    exact iff_of_false Bool.false_ne_true fun hne => hne.1 rfl
  · next h =>
    have h : text ≠ "Infinity".toList := fun heq => h (beq_iff_eq.mpr heq)
    cases decimal? text with
    | none => exact iff_of_true isNaN_notANumber ⟨h, rfl⟩
    | some d =>
      rw [Option.map_some, Option.getD_some, (Decimal.nonnegative_toFloat d).isNaN]
      exact iff_of_false Bool.false_ne_true fun hnone => Option.some_ne_none d hnone.2

/-- A text that does not begin as a hexadecimal numeral is a number by the grammar, or a point
followed by an exponent, if what follows its sign is read. -/
theorem signed_isRead {text : List Char} (hhex : hexDigits? text = none) :
    IsNumber text ∨ IsBarePoint text ↔
      (signed text).2 = "Infinity".toList ∨ decimal? (signed text).2 ≠ none := by
  constructor
  · rintro (h | h)
    · cases h with
      | infinity hsign =>
        refine .inl ?_
        rw [signed_infinity hsign]
      | hexadecimal hx => rcases hx with rfl | rfl <;> cases hhex
      | decimal hsign htext =>
        rw [signed_append hsign htext.exists_unsigned, decimal?_eq_some.mpr (.inl htext)]
        exact .inr nofun
    · obtain ⟨hsign, htext⟩ := h
      rw [signed_append hsign
        (by obtain ⟨hne, he⟩ := htext; exact ⟨'.', _, rfl, by decide, by decide⟩),
        decimal?_eq_some.mpr (.inr ⟨_, htext, rfl⟩)]
      exact .inr nofun
  · obtain ⟨sign, hsign, heq⟩ := exists_sign text
    rintro (h | h)
    · rw [h] at heq
      rw [heq]
      exact .inl (.infinity hsign)
    · obtain ⟨d, hd⟩ := Option.ne_none_iff_exists'.mp h
      rw [heq]
      rcases decimal?_eq_some.mp hd with htext | ⟨e, htext, -⟩
      · exact .inl (.decimal hsign htext)
      · exact .inr ⟨hsign, htext⟩

/-- A text that begins as a hexadecimal numeral is a number by the grammar if hexadecimal digits
follow. -/
theorem isNumber_hexadecimal {text digits : List Char} (hhex : hexDigits? text = some digits) :
    IsNumber text ∨ IsBarePoint text ↔ digits ≠ [] ∧ ∀ c ∈ digits, Token.isHexDigit c = true := by
  obtain ⟨x, hx, rfl⟩ : ∃ x, (x = 'x' ∨ x = 'X') ∧ text = '0' :: x :: digits := by
    unfold hexDigits? at hhex
    split at hhex <;> cases hhex
    · exact ⟨'x', .inl rfl, rfl⟩
    · exact ⟨'X', .inr rfl, rfl⟩
  have hnumeral (c : Char) (hc : IsNumeralChar c) : c ≠ x := by
    rintro rfl
    rcases hx with rfl | rfl <;> simp [IsNumeralChar] at hc
  -- The second character is in no decimal numeral and in no sign.
  have hsigned {sign rest : List Char} (hsign : IsSign sign)
      (heq : sign ++ rest = '0' :: x :: digits) :
      rest = '0' :: x :: digits := by
    rcases hsign with rfl | rfl | rfl
    · exact heq
    · cases heq
    · cases heq
  constructor
  · rintro (h | h)
    · generalize htext : '0' :: x :: digits = text at h
      cases h with
      | infinity hsign => cases hsigned hsign htext.symm
      | hexadecimal hx hne hdigits =>
        cases htext
        exact ⟨hne, hdigits⟩
      | decimal hsign hdenotes =>
        rw [hsigned hsign htext.symm] at hdenotes
        exact absurd rfl (hnumeral x (hdenotes.isNumeralChar x (by simp)))
    · generalize htext : '0' :: x :: digits = text at h
      obtain ⟨hsign, hpoint⟩ := h
      rw [hsigned hsign htext.symm] at hpoint
      cases hpoint
  · rintro ⟨hne, hdigits⟩
    exact .inl (.hexadecimal hx hne hdigits)

/-- Which texts without blanks around them are not converted to a number. -/
theorem isNaN_trimmedToNumber (text : List Char) :
    (trimmedToNumber text).isNaN = true ↔ text ≠ [] ∧ ¬ (IsNumber text ∨ IsBarePoint text) := by
  rcases eq_or_ne text [] with rfl | hne
  · have hzero : (ofFloat 0.0).Nonnegative := by decide
    change (0.0 : Float).isNaN = true ↔ _
    rw [hzero.isNaN]
    exact iff_of_false Bool.false_ne_true fun hempty => hempty.1 rfl
  · cases hhex : hexDigits? text with
    | none =>
      rw [trimmedToNumber_signed hne hhex, signed_isRead hhex, and_iff_right hne, not_or, not_not,
        ← isNaN_magnitude]
      split
      · exact isNaN_neg _
      · exact Iff.rfl
    | some digits =>
      rw [isNumber_hexadecimal hhex, and_iff_right hne]
      have hempty : text.isEmpty = false := by simpa using hne
      unfold trimmedToNumber
      rw [hempty, if_neg (by decide), hhex]
      dsimp only
      cases digits with
      | nil => exact iff_of_true isNaN_notANumber fun h => h.1 rfl
      | cons first rest =>
        rw [List.isEmpty_cons, if_neg (by decide)]
        cases hvalue : hexValue? (first :: rest) 0.0 with
        | none => exact iff_of_true isNaN_notANumber fun h => hexValue?_eq_none_iff.mp hvalue h.2
        | some x =>
          have hpositive := nonnegative_hexValue? (by decide) hvalue
          have hdigits : ∀ c ∈ first :: rest, Token.isHexDigit c = true := by
            by_contra hnot
            rw [hexValue?_eq_none_iff.mpr hnot] at hvalue
            cases hvalue
          rw [Option.getD_some, hpositive.isNaN]
          exact iff_of_false nofun fun h => h ⟨List.cons_ne_nil _ _, hdigits⟩

/-- A text is converted to a number unless, without the blanks around it, it is neither empty nor in
the grammar nor a point directly followed by an exponent. -/
theorem stringToNumber_isNaN (s : String) :
    (stringToNumber s).isNaN = true ↔
      Text.trim Text.isNumericBlank s.toList ≠ [] ∧
        ¬ IsNumber (Text.trim Text.isNumericBlank s.toList) ∧
        ¬ IsBarePoint (Text.trim Text.isNumericBlank s.toList) := by
  rw [stringToNumber, isNaN_trimmedToNumber, not_or]

/-- A point directly followed by an exponent is no numeral. -/
theorem not_denotes_point {text : List Char} {e : Int} (h : PointThenExponent text e)
    (d : Decimal) :
    ¬ Denotes text d := by
  obtain ⟨hne, he⟩ := h
  rename_i exponent
  obtain ⟨c, rest, rfl⟩ := List.exists_cons_of_ne_nil hne
  have hc := (he.head rfl).not_digit
  generalize htext : '.' :: c :: rest = text
  rintro ⟨hwhole, hfraction, hsome, -⟩
  rename_i whole point fraction exponent e
  cases whole with
  | cons first whole =>
    obtain rfl : '.' = first := (List.cons.inj htext).1
    cases hwhole '.' List.mem_cons_self
  | nil =>
    cases hfraction with
    | none => exact hsome.elim (fun h => h rfl) fun h => h rfl
    | digits hds =>
      obtain ⟨first, more, rfl⟩ := List.exists_cons_of_ne_nil (hsome.resolve_left fun h => h rfl)
      obtain rfl : c = first := (List.cons.inj (List.cons.inj htext).2).1
      rw [hds c List.mem_cons_self] at hc
      cases hc

/-- The grammar does not have a point directly followed by an exponent. -/
theorem Numeral.IsBarePoint.not_isNumber {text : List Char} (h : IsBarePoint text) :
    ¬ IsNumber text := by
  obtain ⟨hsign, hpoint⟩ := h
  rename_i sign text e
  have hhead : ∃ c rest, text = c :: rest ∧ c ≠ '-' ∧ c ≠ '+' := by
    obtain ⟨hne, he⟩ := hpoint
    exact ⟨'.', _, rfl, by decide, by decide⟩
  have hsigned := congrArg Prod.snd (signed_append hsign hhead)
  generalize sign ++ text = whole at hsigned
  intro h
  cases h with
  | infinity hsign' =>
    rw [signed_infinity hsign'] at hsigned
    subst hsigned
    cases hpoint
  | hexadecimal hx =>
    rcases hx with rfl | rfl <;> subst hsigned <;> cases hpoint
  | decimal hsign' hdenotes =>
    rw [signed_append hsign' hdenotes.exists_unsigned] at hsigned
    subst hsigned
    exact not_denotes_point hpoint _ hdenotes

/-- A text that is converted to zero though the grammar does not have it. -/
theorem stringToNumber_point : ¬ IsNumber (Text.trim Text.isNumericBlank ".e5".toList) ∧
    stringToNumber ".e5" = 0.0 := by
  have hfive : Exponent ['e', '5'] 5 :=
    .unsigned (.inl rfl) (List.cons_ne_nil '5' []) (digits_singleton rfl)
  have hpoint : IsBarePoint ([] ++ ['.', 'e', '5']) :=
    .intro (.inl rfl) (.intro (List.cons_ne_nil _ _) hfive)
  exact ⟨hpoint.not_isNumber, by decide +kernel⟩

/-! ### Literals -/

theorem trim_eq_self {p : Char → Bool} {text : List Char} (h : ∀ c ∈ text, p c = false) :
    Text.trim p text = text := by
  have hdrop (cs : List Char) (hcs : ∀ c ∈ cs, p c = false) : cs.dropWhile p = cs := by
    cases cs with
    | nil => rfl
    | cons c cs => rw [List.dropWhile_cons_of_neg (by simp [hcs c List.mem_cons_self])]
  rw [Text.trim, Text.trimEnd, Text.trimStart, hdrop text h, hdrop _ fun c hc =>
    h c (List.mem_reverse.mp hc),
      List.reverse_reverse]

/-- A decimal numeral without a sign is read as its decimal. -/
theorem Numeral.Denotes.magnitude {text : List Char} {d : Decimal} (h : Denotes text d) :
    magnitude text = d.toFloat := by
  have hinfinity : text ≠ "Infinity".toList := by
    rintro rfl
    obtain ⟨c, rest, htext, hc⟩ := h.exists_head
    cases htext
    exact absurd hc (by decide)
  rw [Numeral.magnitude, beq_eq_false_iff_ne.mpr hinfinity, decimal?_eq_some.mpr (.inl h)]
  rfl

/-- The number of a decimal numeral. -/
theorem Numeral.Denotes.stringToNumber {text : List Char} {d : Decimal} (h : Denotes text d) :
    stringToNumber (String.ofList text) = d.toFloat := by
  have hsigned : signed ([] ++ text) = (false, text) := signed_append (.inl rfl) h.exists_unsigned
  rw [List.nil_append] at hsigned
  have hne : text ≠ [] := by
    obtain ⟨c, rest, rfl, -⟩ := h.exists_head
    exact List.cons_ne_nil _ _
  rw [ScriptEngine.stringToNumber, String.toList_ofList,
    trim_eq_self fun c hc => (h.isNumeralChar c hc).not_blank,
    trimmedToNumber_signed hne (hexDigits?_of_isNumeralChar h.isNumeralChar), hsigned]
  exact h.magnitude

/-- The number of a decimal numeral after a minus. -/
theorem Numeral.Denotes.stringToNumber_minus {text : List Char} {d : Decimal} (h : Denotes text d) :
    ScriptEngine.stringToNumber (String.ofList ('-' :: text)) = -d.toFloat := by
  have hblank : ∀ c ∈ '-' :: text, Text.isNumericBlank c = false :=
    List.forall_mem_cons.mpr ⟨by decide, fun c hc => (h.isNumeralChar c hc).not_blank⟩
  rw [ScriptEngine.stringToNumber, String.toList_ofList, trim_eq_self hblank,
    trimmedToNumber_signed (List.cons_ne_nil _ _) rfl]
  exact congrArg (-·) h.magnitude

theorem isHexDigit_not_blank {c : Char} (h : Token.isHexDigit c = true) :
    Text.isNumericBlank c = false := by
  have hrange : 48 ≤ c.toNat ∧ c.toNat ≤ 102 := by
    have h : (48 ≤ c.toNat ∧ c.toNat ≤ 57) ∨ (97 ≤ c.toNat ∧ c.toNat ≤ 102) ∨
        (65 ≤ c.toNat ∧ c.toNat ≤ 70) := by
      simpa [Token.isHexDigit, Char.isDigit, Char.le_def, UInt32.le_iff_toNat_le, or_assoc] using h
    omega
  have hall : ∀ n ≤ 102, 48 ≤ n → Text.isNumericBlank (Char.ofNat n) = false := by decide
  rw [← Char.ofNat_toNat c]
  exact hall c.toNat hrange.2 hrange.1

/-- A hexadecimal numeral of a script has digits. -/
theorem exists_hexadecimal {cs text rest : List Char} (h : Token.scanHex cs = some (text, rest)) :
    ∃ x digits, (x = 'x' ∨ x = 'X') ∧ digits ≠ [] ∧ text = '0' :: x :: digits ∧
      ∀ c ∈ digits, Token.isHexDigit c = true := by
  obtain ⟨heq, x, digits, hx, rfl, hdigits⟩ := Token.of_scanHex h
  refine ⟨x, digits, hx, ?_, rfl, hdigits⟩
  rintro rfl
  subst heq
  simp only [List.cons_append, List.nil_append, Token.scanHex] at h
  split at h
  · split at h
    · cases h
    · next hne _ =>
      cases h
      exact hne rfl
  · cases h

/-- A literal has a value, which is the number that its text is converted to. -/
theorem stringToNumber_literal {text : List Char} (h : Token.Spells .numericLiteral text) :
    literalValue? text = some (stringToNumber (String.ofList text)) := by
  obtain ⟨cs, rest, hscan⟩ := h
  rcases Token.of_scanNumber hscan with hscan | hscan
  · obtain ⟨x, digits, hx, hne, rfl, hdigits⟩ := exists_hexadecimal hscan
    obtain ⟨n, hn⟩ := Token.exists_hexValue? hdigits 0.0
    have hhex : hexDigits? ('0' :: x :: digits) = some digits := by rcases hx with rfl | rfl <;> rfl
    have hblank : ∀ c ∈ '0' :: x :: digits, Text.isNumericBlank c = false := by
      refine List.forall_mem_cons.mpr ⟨by decide, List.forall_mem_cons.mpr ⟨?_, ?_⟩⟩
      · rcases hx with rfl | rfl <;> decide
      · exact fun c hc => isHexDigit_not_blank (hdigits c hc)
    have hempty : digits.isEmpty = false := by simpa using hne
    rw [stringToNumber, String.toList_ofList, trim_eq_self hblank]
    unfold literalValue? trimmedToNumber
    rw [List.isEmpty_cons, if_neg Bool.false_ne_true, hhex]
    dsimp only
    rw [hn, hempty, if_neg Bool.false_ne_true, Option.getD_some]
  · obtain ⟨d, hd⟩ := exists_denotes hscan
    rw [hd.literalValue?, hd.stringToNumber]

theorem stringToNumber_literal_pointed : Token.Spells .numericLiteral "08.e+2".toList ∧
    literalValue? "08.e+2".toList = some (stringToNumber "08.e+2") := by
  have hspells : Token.Spells .numericLiteral "08.e+2".toList :=
    ⟨"08.e+2".toList, [], by decide +kernel⟩
  exact ⟨hspells, stringToNumber_literal hspells⟩

end ScriptEngine
