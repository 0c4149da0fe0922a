import StackScript.Value

/-!
Numbers read back from their texts. Rounding depends on a ratio and not on how it is
written, and a number that is rounded stays what it is. On the grid of `10 ^ (-149)`
every finite number lies exactly, so the search for the fewest digits ends, and the
literal of a number that is finite and not negative has digits on both sides of its
point.
-/

namespace StackScript

theorem divToEven_mul_right (num den : Nat) {k : Nat} (hk : 0 < k) :
    divToEven (num * k) (den * k) = divToEven num den := by
  unfold divToEven
  dsimp only
  rw [Nat.mul_div_mul_right num den hk, Nat.mul_mod_mul_right]
  have hlt (a b : Nat) : a * k < b * k ↔ a < b := Nat.mul_lt_mul_right hk
  have hleft : 2 * (num % den * k) < den * k ↔ 2 * (num % den) < den := by
    rw [← Nat.mul_assoc, hlt]
  have hright : den * k < 2 * (num % den * k) ↔ den < 2 * (num % den) := by
    rw [← Nat.mul_assoc, hlt]
  simp only [hleft, hright]

namespace Single

/-- Rounding depends on the ratio alone. -/
theorem ofRatio_mul (num den : Nat) {k : Nat} (hk : 0 < k) :
    ofRatio (num * k) (den * k) = ofRatio num den := by
  have hden (n : Nat) : (den * k) <<< n = den <<< n * k := by
    rw [Nat.shiftLeft_eq, Nat.shiftLeft_eq, Nat.mul_right_comm]
  have hnum : (num * k) <<< 149 = num <<< 149 * k := by
    rw [Nat.shiftLeft_eq, Nat.shiftLeft_eq, Nat.mul_right_comm]
  unfold ofRatio
  dsimp only
  rw [hnum, Nat.mul_div_mul_right _ _ hk, hden, divToEven_mul_right _ _ hk]

theorem ofDecimal_eq (d : Decimal) :
    ofDecimal d =
      ofRatio (d.digits * Nat.pow 10 d.exponent.toNat) (Nat.pow 10 (-d.exponent).toNat) := by
  obtain ⟨digits, exponent⟩ := d
  cases exponent with
  | ofNat e =>
    have hneg : (-(Int.ofNat e)).toNat = 0 := by
      rw [Int.ofNat_eq_natCast]
      omega
    rw [hneg]
    rfl
  | negSucc e =>
    change ofRatio digits (Nat.pow 10 (e + 1)) = ofRatio (digits * 1) (Nat.pow 10 (e + 1))
    rw [Nat.mul_one]

section Finite

variable {x : Single}

theorem significand_lt (x : Single) : x.significand < 0x1000000 := by
  unfold significand
  split <;> omega

theorem scale_le (h : x.isFinite = true) : x.scale ≤ 253 := by
  have hlt : x.magnitude < 0x7f800000 := by simpa [isFinite] using h
  unfold scale
  omega

theorem toNat_bits (h : x.isNegative = false) : x.bits.toNat = x.magnitude := by
  have hlt : x.bits.toNat < 0x80000000 := by simpa [isNegative] using h
  exact (Nat.mod_eq_of_lt hlt).symm

theorem abs_eq (h : x.isNegative = false) : x.abs = x := by
  have hlt : x.bits.toNat < 0x80000000 := by simpa [isNegative] using h
  obtain ⟨bits⟩ := x
  unfold abs
  congr 1
  apply UInt32.toNat_inj.1
  rw [UInt32.toNat_and]
  change bits.toNat &&& (2 ^ 31 - 1) = bits.toNat
  rw [Nat.and_two_pow_sub_one_eq_mod]
  exact Nat.mod_eq_of_lt hlt

/-- The significand has its place, so that rounding finds the scale again. -/
theorem log2_significand (x : Single) :
    Nat.log2 (x.significand <<< x.scale) - 23 = x.scale := by
  rw [Nat.shiftLeft_eq]
  by_cases hsmall : x.magnitude < 0x800000
  · have hscale : x.scale = 0 := by
      unfold scale
      omega
    have hsignificand : x.significand = x.magnitude := if_pos hsmall
    rw [hscale, hsignificand, Nat.pow_zero, Nat.mul_one]
    by_cases hzero : x.magnitude = 0
    · rw [hzero]
      rfl
    · have hlog := (Nat.log2_lt hzero).2 (show x.magnitude < 2 ^ 23 from hsmall)
      omega
  · have hlow : 2 ^ 23 ≤ x.significand := by
      unfold significand
      rw [if_neg hsmall]
      omega
    have hhigh : x.significand < 2 ^ 24 := x.significand_lt
    have hne : x.significand * 2 ^ x.scale ≠ 0 :=
      Nat.mul_ne_zero (by omega) (Nat.pos_iff_ne_zero.1 (Nat.pow_pos (by decide)))
    have hlog : Nat.log2 (x.significand * 2 ^ x.scale) = 23 + x.scale := by
      rw [Nat.log2_eq_iff hne, Nat.pow_add, Nat.add_right_comm, Nat.pow_add]
      exact ⟨Nat.mul_le_mul_right _ hlow,
        Nat.mul_lt_mul_of_pos_right hhigh (Nat.pow_pos (by decide))⟩
    omega

theorem scale_mul_add (x : Single) : x.scale * 0x800000 + x.significand = x.magnitude := by
  unfold scale significand
  split <;> omega

/-- A number that is rounded stays what it is. -/
theorem ofRatio_fraction (hfinite : x.isFinite = true) (hsign : x.isNegative = false) :
    ofRatio x.fraction.1 x.fraction.2 = x := by
  have hlt : x.magnitude < 0x7f800000 := by simpa [isFinite] using hfinite
  have hden : 0 < (1 <<< 149) <<< x.scale := by
    rw [Nat.shiftLeft_eq, Nat.shiftLeft_eq]
    exact Nat.mul_pos (Nat.mul_pos Nat.one_pos (Nat.pow_pos (by decide)))
      (Nat.pow_pos (by decide))
  have hnum : (x.significand <<< x.scale) <<< 149 =
      x.significand * (1 <<< 149) <<< x.scale := by
    simp only [Nat.shiftLeft_eq, Nat.one_mul]
    rw [Nat.mul_assoc, Nat.mul_comm (2 ^ x.scale)]
  have hquotient : (x.significand <<< x.scale) <<< 149 / 1 <<< 149 =
      x.significand <<< x.scale := by
    rw [Nat.shiftLeft_eq _ 149, Nat.shiftLeft_eq 1 149, Nat.one_mul,
      Nat.mul_div_cancel _ (Nat.pow_pos (by decide))]
  have hmagnitude : min (x.scale * 0x800000 + x.significand) 0x7f800000 = x.bits.toNat := by
    rw [scale_mul_add, toNat_bits hsign]
    omega
  unfold ofRatio fraction
  dsimp only
  rw [hquotient, x.log2_significand, hnum, divToEven_mul _ hden, hmagnitude, UInt32.ofNat_toNat]

/-- On the finest grid every number lies exactly. -/
theorem isSome_onGrid (hfinite : x.isFinite = true) (hsign : x.isNegative = false) :
    (x.onGrid (-149)).isSome = true := by
  have hpow : Nat.pow 10 149 = Nat.pow 5 149 * 1 <<< 149 := by decide +kernel
  have hquotient : x.fraction.1 * Nat.pow 10 149 / 1 <<< 149 = x.fraction.1 * Nat.pow 5 149 := by
    rw [hpow, ← Nat.mul_assoc, Nat.mul_div_cancel _ (by decide +kernel)]
  have hremainder : x.fraction.1 * Nat.pow 10 149 % 1 <<< 149 = 0 := by
    rw [hpow, ← Nat.mul_assoc, Nat.mul_mod_left]
  have hreads : ofDecimal ⟨x.fraction.1 * Nat.pow 5 149, -149⟩ = x := by
    rw [ofDecimal_eq]
    change ofRatio (x.fraction.1 * Nat.pow 5 149 * 1) (Nat.pow 10 149) = x
    rw [Nat.mul_one, hpow, Nat.mul_comm (Nat.pow 5 149), ofRatio_mul _ _ (by decide +kernel)]
    exact ofRatio_fraction hfinite hsign
  unfold onGrid
  change (List.find? (fun d => ofDecimal d == x)
    (if 2 * (x.fraction.1 * Nat.pow 10 149 % (1 <<< 149 * 1)) < 1 <<< 149 * 1
      then [⟨x.fraction.1 * Nat.pow 10 149 / (1 <<< 149 * 1), -149⟩, _]
      else [_, _])).isSome = true
  rw [Nat.mul_one, hremainder, if_pos (by decide +kernel), hquotient,
    List.find?_cons_of_pos (by rw [hreads, beq_self_eq_true])]
  rfl

theorem ofDecimal_of_onGrid {exponent : Int} {d : Decimal} (h : x.onGrid exponent = some d) :
    ofDecimal d = x :=
  eq_of_beq (List.find?_some (p := fun d => ofDecimal d == x) h)

/-- The search for the fewest digits comes down to the finest grid. -/
theorem topExponent_bounds (hfinite : x.isFinite = true) :
    -149 ≤ x.topExponent ∧ x.topExponent < 101 := by
  have hscale := scale_le hfinite
  have hlog : Nat.log2 x.significand < 24 := by
    by_cases hzero : x.significand = 0
    · rw [hzero]
      decide
    · exact (Nat.log2_lt hzero).2 x.significand_lt
  unfold topExponent
  omega

/-- The text of a finite number has enough digits. -/
theorem ofDecimal_shortest (hfinite : x.isFinite = true) (hsign : x.isNegative = false) :
    ofDecimal x.shortest = x := by
  unfold shortest
  split
  case isTrue hzero =>
    have hbits : x.bits.toNat = 0 := by
      rw [toNat_bits hsign]
      exact eq_of_beq hzero
    obtain ⟨bits⟩ := x
    obtain rfl : bits = 0 := UInt32.toNat_inj.1 hbits
    decide +kernel
  obtain ⟨hlow, hhigh⟩ := topExponent_bounds hfinite
  rw [abs_eq hsign]
  dsimp only
  have hsome : ((List.range 250).findSome? fun (i : Nat) =>
      x.onGrid (x.topExponent - i)).isSome := by
    refine List.findSome?_isSome_iff.2 ⟨(x.topExponent + 149).toNat, ?_, ?_⟩
    · rw [List.mem_range]
      omega
    · rw [show x.topExponent - ((x.topExponent + 149).toNat : Int) = -149 by omega]
      exact isSome_onGrid hfinite hsign
  obtain ⟨d, hd⟩ := Option.isSome_iff_exists.1 hsome
  obtain ⟨i, -, hi⟩ := List.exists_of_findSome?_eq_some hd
  rw [hd, Option.getD_some]
  exact ofDecimal_of_onGrid hi

end Finite

end Single

namespace Decimal

theorem isDigit_of_mem_zeros {n : Nat} {c : Char} (h : c ∈ zeros n) : c.isDigit = true := by
  rw [List.eq_of_mem_replicate h]
  rfl

theorem isDigit_of_mem_digitChars {d : Decimal} {c : Char} (h : c ∈ d.digitChars) :
    c.isDigit = true :=
  Nat.isDigit_of_mem_toDigits (by decide) (by decide) h

/-- Zeros in front of digits change nothing. -/
theorem ofDigitChars_zeros_append (d : Decimal) (n : Nat) :
    Nat.ofDigitChars 10 (zeros n ++ d.digitChars) 0 = d.digits := by
  rw [Nat.ofDigitChars_append, zeros, Nat.ofDigitChars_replicate_zero, Nat.mul_zero]
  exact Nat.ofDigitChars_ten_toDigits

end Decimal

namespace Single

/-- Digits before and behind a point that spell a number. -/
structure SpelledBy (x : Single) (whole part : List Char) : Prop where
  whole_ne : whole ≠ []
  part_ne : part ≠ []
  whole_digits : ∀ c ∈ whole, c.isDigit = true
  part_digits : ∀ c ∈ part, c.isDigit = true
  reads : ofDecimal (.ofDigits whole part) = x

/-- A whole number with a zero behind its point. -/
theorem spelledBy_whole {x : Single} {digits e : Nat} (h : ofDecimal ⟨digits, .ofNat e⟩ = x) :
    x.SpelledBy (Decimal.digitChars ⟨digits, .ofNat e⟩ ++ Decimal.zeros e) ['0'] := by
  refine ⟨by simp [Decimal.digitChars], by simp, fun c hc => ?_,
    fun c hc => List.mem_singleton.1 hc ▸ rfl, ?_⟩
  · rcases List.mem_append.1 hc with hdigit | hzero
    · exact Decimal.isDigit_of_mem_digitChars hdigit
    · exact Decimal.isDigit_of_mem_zeros hzero
  · have hdigits : Nat.ofDigitChars 10
        (Decimal.digitChars ⟨digits, .ofNat e⟩ ++ Decimal.zeros e ++ Decimal.zeros 1) 0 =
          digits * 10 ^ e * 10 := by
      rw [Nat.ofDigitChars_append, Nat.ofDigitChars_append, Decimal.digitChars,
        Nat.ofDigitChars_ten_toDigits, Decimal.zeros, Nat.ofDigitChars_replicate_zero,
        Decimal.zeros, Nat.ofDigitChars_replicate_zero, Nat.pow_one, Nat.mul_comm 10,
        Nat.mul_comm (10 ^ e)]
    have hreads : ofDecimal ⟨digits * 10 ^ e * 10, .negSucc 0⟩ = ofDecimal ⟨digits, .ofNat e⟩ :=
      ofRatio_mul (digits * 10 ^ e) 1 (show 0 < 10 by decide)
    rw [← h, ← hreads, ← hdigits]
    rfl

/-- Digits with a point before the last of them. -/
theorem spelledBy_fraction {x : Single} {digits e : Nat}
    (h : ofDecimal ⟨digits, .negSucc e⟩ = x) :
    ∃ whole part, Decimal.withPoint (Decimal.digitChars ⟨digits, .negSucc e⟩) (e + 1) =
      whole ++ '.' :: part ∧ x.SpelledBy whole part := by
  unfold Decimal.withPoint
  dsimp only
  generalize hpadded : Decimal.zeros (e + 1 + 1 - _) ++ _ = padded
  have hlength : e + 1 < padded.length := by
    rw [← hpadded, List.length_append, Decimal.zeros, List.length_replicate]
    omega
  have hdigit (c : Char) (hc : c ∈ padded) : c.isDigit = true := by
    rw [← hpadded] at hc
    rcases List.mem_append.1 hc with hzero | hdigit
    · exact Decimal.isDigit_of_mem_zeros hzero
    · exact Decimal.isDigit_of_mem_digitChars hdigit
  have hpart : (padded.drop (padded.length - (e + 1))).length = e + 1 := by
    rw [List.length_drop]
    omega
  refine ⟨_, _, rfl, ?_, ?_, ?_, ?_, ?_⟩
  · rw [← List.length_pos_iff, List.length_take]
    omega
  · rw [← List.length_pos_iff, hpart]
    omega
  · exact fun c hc => hdigit c (List.mem_of_mem_take hc)
  · exact fun c hc => hdigit c (List.mem_of_mem_drop hc)
  · unfold Decimal.ofDigits
    rw [List.take_append_drop, hpart, ← hpadded, Decimal.ofDigitChars_zeros_append]
    exact h

/-- The literal of a number that is finite and not negative reads back as that number. -/
theorem literalText_spelledBy {x : Single} (hfinite : x.isFinite = true)
    (hsign : x.isNegative = false) : ∃ whole part,
      (Value.number x).literalText.toList = whole ++ '.' :: part ∧ x.SpelledBy whole part := by
  have hnan : x.isNaN = false := by
    have hlt : x.magnitude < 0x7f800000 := by simpa [isFinite] using hfinite
    simp only [isNaN, decide_eq_false_iff_not]
    omega
  have htext : x.text = x.shortest.positional := by
    simp [text, textOr, signed, hnan, hsign, hfinite]
  have hreads := ofDecimal_shortest hfinite hsign
  have hliteral : (Value.number x).literalText =
      if x.text.toList.all Value.isDigitOrMinus then x.text ++ ".0" else x.text := rfl
  rw [hliteral, htext]
  generalize x.shortest = d at hreads ⊢
  obtain ⟨digits, exponent⟩ := d
  cases exponent with
  | ofNat e =>
    have hspelled := spelledBy_whole hreads
    refine ⟨_, _, ?_, hspelled⟩
    have hall : ∀ c ∈ (Decimal.positional ⟨digits, .ofNat e⟩).toList,
        Value.isDigitOrMinus c = true := by
      intro c hc
      rw [Decimal.positional, String.toList_ofList] at hc
      simp [Value.isDigitOrMinus, hspelled.whole_digits c hc]
    rw [if_pos (List.all_eq_true.2 hall), String.toList_append, Decimal.positional,
      String.toList_ofList]
    rfl
  | negSucc e =>
    obtain ⟨whole, part, htext, hspelled⟩ := spelledBy_fraction hreads
    refine ⟨whole, part, ?_, hspelled⟩
    have hpoint : ¬(Decimal.positional ⟨digits, .negSucc e⟩).toList.all Value.isDigitOrMinus := by
      rw [Decimal.positional, String.toList_ofList, htext]
      simp [Value.isDigitOrMinus]
    rw [if_neg hpoint, Decimal.positional, String.toList_ofList, htext]

end Single

end StackScript
