import ScriptEngine.Proofs.Number.Numeral
import ScriptEngine.Proofs.Number.Rounding

/-!
# Completed numerals

Before a text goes to the reader of doubles, zeros are written after the points that no digit
follows.  What the reader makes of the completed text is what the text itself denotes: a zero that
is added to the fraction changes the decimal but not its value.  Beside the numerals, a point
directly followed by an exponent gets a digit and is read.

## Main statements

* `Numeral.unsigned?_completed` : the reader takes completed texts as both conversions mean them.
* `Numeral.double?_completed` : the same with a sign.
* `Numeral.Denotes.literalValue?` : a numeral in a script has the value of its decimal.
* `Token.exists_literalValue?` : what the grammar takes as a numeral has a value.
-/

namespace ScriptEngine

namespace Numeral

/-! ### Writing zeros -/

variable {letter c : Char} {cs rest : List Char}

theorem zeroBefore_append (hcs : '.' ∉ cs) :
    zeroBefore letter (cs ++ rest) = cs ++ zeroBefore letter rest := by
  induction cs with
  | nil => rfl
  | cons c cs ih =>
    rw [List.mem_cons, not_or] at hcs
    rw [List.cons_append, zeroBefore, beq_eq_false_iff_ne.mpr (Ne.symm hcs.1), Bool.false_and,
      if_neg Bool.false_ne_true, ih hcs.2, List.cons_append]

theorem zeroBefore_point (h : rest.head? ≠ some letter) :
    zeroBefore letter ('.' :: rest) = '.' :: zeroBefore letter rest := by
  rw [zeroBefore, beq_eq_false_iff_ne.mpr h, Bool.and_false, if_neg Bool.false_ne_true]

theorem head?_zeroBefore (cs : List Char) : (zeroBefore letter cs).head? = cs.head? := by
  cases cs with
  | nil => rfl
  | cons c cs =>
    rw [zeroBefore]
    split
    · next h =>
      rw [Bool.and_eq_true, beq_iff_eq] at h
      rw [h.1]
      rfl
    · rfl

theorem mem_zeroBefore (h : c ∈ cs) : c ∈ zeroBefore letter cs := by
  induction cs with
  | nil => cases h
  | cons d cs ih =>
    rw [zeroBefore]
    split
    · next hd =>
      rw [Bool.and_eq_true, beq_iff_eq] at hd
      rcases List.mem_cons.mp h with rfl | h
      · rw [hd.1]
        exact List.mem_cons_self
      · exact List.mem_cons_of_mem _ (List.mem_cons_of_mem _ (ih h))
    · rcases List.mem_cons.mp h with rfl | h
      · exact List.mem_cons_self
      · exact List.mem_cons_of_mem _ (ih h)

theorem zeroAfter_append (cs : List Char) (h : rest ≠ []) :
    zeroAfter (cs ++ rest) = cs ++ zeroAfter rest := by
  unfold zeroAfter
  rw [List.getLast?_append_of_ne_nil _ h]
  split
  · rw [List.append_assoc]
  · rfl

theorem head?_zeroAfter (cs : List Char) : (zeroAfter cs).head? = cs.head? := by
  cases cs with
  | nil => rfl
  | cons c cs =>
    unfold zeroAfter
    split <;> rfl

theorem mem_zeroAfter (h : c ∈ cs) : c ∈ zeroAfter cs := by
  unfold zeroAfter
  split
  · exact List.mem_append_left _ h
  · exact h

/-! ### Completed texts -/

theorem head?_completed (cs : List Char) : (completed cs).head? = cs.head? := by
  rw [completed, head?_zeroAfter, head?_zeroBefore, head?_zeroBefore]

/-- What stands in front of every point stays as it is. -/
theorem completed_append (hcs : '.' ∉ cs) (rest : List Char) :
    completed (cs ++ rest) = cs ++ completed rest := by
  rw [completed, zeroBefore_append hcs, zeroBefore_append hcs]
  rcases eq_or_ne rest [] with rfl | hne
  · rw [show zeroBefore 'E' (zeroBefore 'e' []) = [] from rfl, List.append_nil, zeroAfter, if_neg]
    · exact (List.append_nil cs).symm
    · rw [beq_iff_eq]
      exact fun h => hcs (List.mem_of_getLast? h)
  · refine zeroAfter_append _ fun hempty => hne ?_
    rwa [← List.head?_eq_none_iff, head?_zeroBefore, head?_zeroBefore, List.head?_eq_none_iff]
      at hempty

theorem completed_eq_self (hcs : '.' ∉ cs) : completed cs = cs := by
  have happend := completed_append hcs []
  rwa [List.append_nil, show completed [] = [] from rfl, List.append_nil] at happend

/-- A point that nothing or the letter of an exponent follows gets a zero. -/
theorem completed_point (h : ∀ c, rest.head? = some c → ExponentLetter c) :
    completed ('.' :: rest) = '.' :: '0' :: completed rest := by
  cases rest with
  | nil => rfl
  | cons c rest =>
    have hnone : zeroBefore 'E' (zeroBefore 'e' (c :: rest)) ≠ [] := by
      rw [Ne, ← List.head?_eq_none_iff, head?_zeroBefore, head?_zeroBefore]
      exact Option.some_ne_none c
    have hwritten : zeroBefore 'E' (zeroBefore 'e' ('.' :: c :: rest)) =
        ['.', '0'] ++ zeroBefore 'E' (zeroBefore 'e' (c :: rest)) := by
      rcases h c rfl with rfl | rfl <;> rfl
    rw [completed, hwritten, zeroAfter_append _ hnone]
    rfl

/-- Any other point gets none. -/
theorem completed_point_of_not (h : ∃ c, rest.head? = some c ∧ ¬ ExponentLetter c) :
    completed ('.' :: rest) = '.' :: completed rest := by
  obtain ⟨c, hc, hletter⟩ := h
  have hne (letter : Char) (hexp : ExponentLetter letter) : rest.head? ≠ some letter := by
    rw [hc]
    rintro heq
    exact hletter (Option.some.inj heq ▸ hexp)
  have hnone : zeroBefore 'E' (zeroBefore 'e' rest) ≠ [] := by
    rw [Ne, ← List.head?_eq_none_iff, head?_zeroBefore, head?_zeroBefore, hc]
    exact Option.some_ne_none c
  rw [completed, zeroBefore_point (hne 'e' (.inl rfl)), zeroBefore_point]
  · exact zeroAfter_append ['.'] hnone
  · rw [head?_zeroBefore]
    exact hne 'E' (.inr rfl)

theorem Digits.not_mem_point {ds : List Char} (h : Digits ds) : '.' ∉ ds :=
  fun hpoint => digit_ne (h '.' hpoint) rfl rfl

theorem Exponent.not_mem_point {text : List Char} {e : Int} (h : Exponent text e) : '.' ∉ text := by
  cases h with
  | none => exact List.not_mem_nil
  | unsigned hc _ hds => exact List.not_mem_cons_of_ne_of_not_mem hc.ne_point.symm hds.not_mem_point
  | plus hc _ hds | minus hc _ hds =>
    exact List.not_mem_cons_of_ne_of_not_mem hc.ne_point.symm
      (List.not_mem_cons_of_ne_of_not_mem (by decide) hds.not_mem_point)

/-- An exponent has no point, so nothing is written into it. -/
theorem exponent?_completed (cs : List Char) : exponent? (completed cs) = exponent? cs := by
  have hnone {text : List Char} (hpoint : '.' ∈ text) : exponent? text = none :=
    Option.eq_none_iff_forall_not_mem.mpr fun e he => (exponent?_eq_some.mp he).not_mem_point hpoint
  by_cases hpoint : '.' ∈ cs
  · have hpoint' : '.' ∈ completed cs := mem_zeroAfter (mem_zeroBefore (mem_zeroBefore hpoint))
    rw [hnone hpoint, hnone hpoint']
  · rw [completed_eq_self hpoint]

/-! ### The reader of doubles -/

/-- A zero at the end of the fraction changes the decimal, but not its value. -/
theorem toFloat_zero_end (ds : List Char) (e : Int) :
    (⟨digitsValue (ds ++ ['0']), e - 1⟩ : Decimal).toFloat =
    (⟨digitsValue ds, e⟩ : Decimal).toFloat := by
  refine Decimal.toFloat_congr ?_
  rw [Decimal.value, Decimal.value, digitsValue_append, show digitsValue ['0'] = 0 from rfl,
    zpow_sub_one₀ (by norm_num)]
  push_cast
  norm_num
  ring

/-- What the reader of doubles makes of a completed text is what the text is read as by both
conversions; a point alone is excluded by one of them and is completed by a digit in front of it in
the other. -/
theorem unsigned?_completed {text : List Char} (hpoint : text ≠ ['.']) :
    (unsigned? (completed text)).map Decimal.toFloat = (decimal? text).map Decimal.toFloat := by
  rcases exists_split text with ⟨whole, fraction, tail, rfl, hwhole, hfraction, htail⟩ |
    ⟨whole, tail, rfl, hwhole, htail⟩
  · have htail' : ∀ c, (completed tail).head? = some c → c.isDigit = false := by
      rwa [head?_completed]
    rw [completed_append hwhole.not_mem_point, decimal?_point hwhole hfraction htail]
    cases fraction with
    | cons c fraction =>
      have hc : ¬ ExponentLetter c := fun hletter => by
        have := hletter.not_digit
        rw [hfraction c List.mem_cons_self] at this
        cases this
      rw [completed_point_of_not ⟨c, rfl, hc⟩, completed_append hfraction.not_mem_point,
        unsigned?_point hwhole hfraction htail', exponent?_completed, if_neg (by simp),
          if_neg (by simp)]
    | nil =>
      rw [List.nil_append]
      by_cases hletter : ∀ c, tail.head? = some c → ExponentLetter c
      · -- The zero is the whole fraction.
        have hzero : Digits ['0'] := digits_singleton rfl
        rw [completed_point hletter]
        have hread := unsigned?_point hwhole hzero htail'
        rw [List.cons_append, List.nil_append] at hread
        rw [hread, exponent?_completed, if_neg (by simp), if_neg, Option.map_map, Option.map_map]
        · refine Option.map_congr fun e _ => ?_
          simpa using toFloat_zero_end whole e
        · rintro ⟨rfl, -, rfl⟩
          exact hpoint rfl
      · -- What follows the point is no exponent.
        push Not at hletter
        obtain ⟨c, hc, hletter⟩ := hletter
        have hnone : exponent? tail = none :=
          Option.eq_none_iff_forall_not_mem.mpr fun e he =>
            hletter ((exponent?_eq_some.mp he).head hc)
        rw [completed_point_of_not ⟨c, hc, hletter⟩]
        have hempty : Digits [] := nofun
        have hread := unsigned?_point hwhole hempty htail'
        rw [List.nil_append] at hread
        rw [hread, exponent?_completed, hnone]
        simp
  · have htail' : ∀ c, (completed tail).head? = some c → c.isDigit = false ∧ c ≠ '.' := by
      rwa [head?_completed]
    rw [completed_append hwhole.not_mem_point, unsigned?_plain hwhole htail',
      decimal?_plain hwhole htail', decimal?_plain hwhole htail, exponent?_completed]

/-! ### Signs -/

theorem signed_eq_self {text : List Char} (h : ∀ c, text.head? = some c → c ≠ '-' ∧ c ≠ '+') :
    signed text = (false, text) := by
  unfold signed
  split
  · exact absurd rfl (h '-' rfl).1
  · exact absurd rfl (h '+' rfl).2
  · rfl

/-- Zeros are written after a sign as if it were not there. -/
theorem signed_completed (text : List Char) :
    signed (completed text) = ((signed text).1, completed (signed text).2) := by
  have happend {sign : Char} (hsign : '.' ≠ sign) (rest : List Char) :
      completed (sign :: rest) = sign :: completed rest := by
    have hplain : '.' ∉ [sign] := by simpa using hsign
    exact completed_append hplain rest
  by_cases h : ∀ c, text.head? = some c → c ≠ '-' ∧ c ≠ '+'
  · rw [signed_eq_self h, signed_eq_self (by rwa [head?_completed])]
  · cases text with
    | nil => exact absurd nofun h
    | cons c rest =>
      obtain rfl | rfl : c = '-' ∨ c = '+' := by
        by_contra hc
        rw [not_or] at hc
        exact h fun d hd => Option.some.inj hd ▸ hc
      · rw [happend (by decide)]
        rfl
      · rw [happend (by decide)]
        rfl

theorem IsNumeralChar.toLower_ne {c : Char} (h : IsNumeralChar c) :
    c.toLower ≠ 'i' ∧ c.toLower ≠ 'n' := by
  rcases h with h | h
  · have hrange : ¬ (65 ≤ c.toNat ∧ c.toNat ≤ 90) ∧ c.toNat < 58 := by
      have h : 48 ≤ c.toNat ∧
          c.toNat ≤ 57 := by simpa [Char.isDigit, UInt32.le_iff_toNat_le] using h
      omega
    have hall : ∀ n < 58, (Char.ofNat n).toLower ≠ 'i' ∧ (Char.ofNat n).toLower ≠ 'n' := by decide
    rw [← Char.ofNat_toNat c]
    exact hall c.toNat hrange.2
  · simp only [List.mem_cons, List.not_mem_nil, or_false] at h
    rcases h with rfl | rfl | rfl | rfl | rfl <;> decide

/-- The words for special values begin with a letter that is in no numeral. -/
theorem named?_eq_none {text : List Char} (h : ∀ c, text.head? = some c → IsNumeralChar c) :
    named? text = none := by
  cases text with
  | nil => rfl
  | cons c rest =>
    obtain ⟨hi, hn⟩ := (h c rfl).toLower_ne
    have hword (word : String) {first : Char} (hfirst : word.toList.head? = some first)
        (hne : c.toLower ≠ first) :
          (String.ofList ((c :: rest).map Char.toLower) == word) = false := by
      rw [beq_eq_false_iff_ne]
      rintro rfl
      rw [String.toList_ofList] at hfirst
      exact hne (Option.some.inj hfirst)
    unfold named?
    dsimp only
    rw [hword "inf" rfl hi, hword "infinity" rfl hi, hword "nan" rfl hn]
    rfl

/-- What the reader of doubles makes of a completed text, with or without a sign. -/
theorem double?_completed {text : List Char}
    (hchar : ∀ c, (signed text).2.head? = some c → IsNumeralChar c)
    (hpoint : (signed text).2 ≠ ['.']) :
    double? (completed text) = ((decimal? (signed text).2).map Decimal.toFloat).map
      fun x => if (signed text).1 then -x else x := by
  rw [← unsigned?_completed hpoint]
  have hnone : named? (completed (signed text).2) = none :=
    named?_eq_none (by rwa [head?_completed])
  simp only [double?, signed_completed]
  cases unsigned? (completed (signed text).2) with
  | some d => rfl
  | none =>
    dsimp only
    rw [hnone]
    rfl

/-! ### Literals -/

theorem Denotes.exists_unsigned {text : List Char} {d : Decimal} (h : Denotes text d) :
    ∃ c rest, text = c :: rest ∧ c ≠ '-' ∧ c ≠ '+' := by
  obtain ⟨c, rest, rfl, hc | rfl⟩ := h.exists_head
  · exact ⟨c, rest, rfl, digit_ne hc rfl, digit_ne hc rfl⟩
  · exact ⟨'.', rest, rfl, by decide, by decide⟩

/-- A zero in front of a numeral does not change what it denotes. -/
theorem Denotes.zero_cons {text : List Char} {d : Decimal} (h : Denotes text d) :
    Denotes ('0' :: text) d := by
  obtain ⟨hwhole, hfraction, -, he⟩ := h
  have hzero := Denotes.intro ((digits_singleton rfl).append hwhole) hfraction
    (.inl (List.cons_ne_nil '0' _)) he
  exact hzero

/-- A numeral in a script has the value of its decimal. -/
theorem Denotes.literalValue? {text : List Char} {d : Decimal} (h : Denotes text d) :
    literalValue? text = some d.toFloat := by
  obtain ⟨written, hwritten, hdenotes, hpoint⟩ : ∃ written,
      (if text.head? == some '.' then '0' :: text else text) = written ∧ Denotes written d ∧
        written ≠ ['.'] := by
    split
    · exact ⟨_, rfl, h.zero_cons, fun heq => absurd (List.cons.inj heq).1 (by decide)⟩
    · next hhead =>
      refine ⟨_, rfl, h, ?_⟩
      rintro rfl
      exact hhead rfl
  have hsigned : signed written = (false, written) := by
    obtain ⟨c, rest, rfl, hc⟩ := hdenotes.exists_unsigned
    exact signed_eq_self fun d hd => Option.some.inj hd ▸ hc
  rw [ScriptEngine.literalValue?, hexDigits?_of_isNumeralChar h.isNumeralChar]
  dsimp only
  rw [hwritten, double?_completed, hsigned, decimal?_eq_some.mpr (.inl hdenotes)]
  · rfl
  · rw [hsigned]
    exact fun c hc => hdenotes.isNumeralChar c (List.mem_of_head? hc)
  · rwa [hsigned]

end Numeral

/-- What the grammar takes as a numeral has a value. -/
theorem Token.exists_literalValue? {cs text rest : List Char}
    (h : scanNumber cs = some (text, rest)) :
    ∃ x, literalValue? text = some x := by
  rcases of_scanNumber h with h | h
  · obtain ⟨-, x, digits, hx, rfl, hdigits⟩ := of_scanHex h
    obtain ⟨y, hy⟩ := exists_hexValue? hdigits 0.0
    exact ⟨y, by rcases hx with rfl | rfl <;> exact hy⟩
  · obtain ⟨d, hd⟩ := Numeral.exists_denotes h
    exact ⟨_, hd.literalValue?⟩

end ScriptEngine
