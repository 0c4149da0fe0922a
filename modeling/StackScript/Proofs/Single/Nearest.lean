import StackScript.Proofs.Single.Order
import StackScript.Proofs.Single.Reading

/-!
Ints rounded to numbers. The distance of a number from an int is a whole multiple of `2 ^ (-149)`,
so that everything is claimed of integers. A number is either a multiple of the step by which the
significand of the rounded int grows, and of those the quotient is a nearest one, or it lies below
all such numbers and below the int. Main statement: a rounded int is a nearest number, and one
with an even significand if there are two.
-/

namespace StackScript

section Quotient

variable (num : Nat) {den : Nat}

/-- No multiple of the divisor is nearer than the rounded one. -/
theorem divToEven_nearest (hden : 0 < den) (t : Nat) :
    ((den * divToEven num den : Nat) - num : Int).natAbs ≤
      ((den * t : Nat) - num : Int).natAbs := by
  have hhigh := two_mul_divToEven_le num den
  have hlow := le_two_mul_divToEven num hden
  rcases Nat.lt_trichotomy t (divToEven num den) with hlt | rfl | hgt
  · have hstep : den * t + den ≤ den * divToEven num den := Nat.mul_le_mul_left den hlt
    omega
  · exact Nat.le_refl _
  · have hstep : den * divToEven num den + den ≤ den * t := Nat.mul_le_mul_left den hgt
    omega

/-- Another multiple is as near only if the dividend lies halfway between two of them. -/
theorem halfway_of_tie (hden : 0 < den) {t : Nat} (hne : t ≠ divToEven num den)
    (heq : ((den * t : Nat) - num : Int).natAbs =
      ((den * divToEven num den : Nat) - num : Int).natAbs) :
    2 * num = 2 * (den * divToEven num den) + den ∨
      2 * num + den = 2 * (den * divToEven num den) := by
  have hhigh := two_mul_divToEven_le num den
  have hlow := le_two_mul_divToEven num hden
  rcases Nat.lt_or_gt_of_ne hne with hlt | hgt
  · have hstep : den * t + den ≤ den * divToEven num den := Nat.mul_le_mul_left den hlt
    omega
  · have hstep : den * divToEven num den + den ≤ den * t := Nat.mul_le_mul_left den hgt
    omega

/-- Halfway between two multiples the even one is taken. -/
theorem divToEven_even (hden : 0 < den)
    (h : 2 * num = 2 * (den * divToEven num den) + den ∨
      2 * num + den = 2 * (den * divToEven num den)) :
    divToEven num den % 2 = 0 := by
  have hhalf : 2 * (num % den) = den := by
    have hnum := Nat.div_add_mod num den
    have hlt := Nat.mod_lt num hden
    rcases divToEven_eq_or num den with ⟨hs, hr⟩ | ⟨hs, hr⟩
    · rw [hs] at h
      omega
    · rw [hs, Nat.mul_add] at h
      omega
  have hdiv : divToEven num den = num / den + num / den % 2 := by
    unfold divToEven
    dsimp only
    rw [hhalf, if_neg (Nat.lt_irrefl den), if_neg (Nat.lt_irrefl den)]
  omega

end Quotient

namespace Single

variable {x y : Single} {n : Int}

theorem significand_mod_two (x : Single) : x.significand % 2 = x.magnitude % 2 := by
  unfold significand
  split <;> omega

/-- A pattern below that of infinity is a finite number without a sign. -/
theorem plain_of_bits_lt (h : x.bits.toNat < 0x7f800000) :
    x.isNegative = false ∧ x.magnitude = x.bits.toNat ∧ x.isFinite = true := by
  have hmagnitude : x.magnitude = x.bits.toNat := Nat.mod_eq_of_lt (by omega)
  unfold isNegative isFinite
  rw [hmagnitude, decide_eq_false_iff_not, decide_eq_true_iff]
  omega

section Negation

theorem toNat_bits_neg (x : Single) : x.neg.bits.toNat = x.bits.toNat ^^^ 2 ^ 31 := by
  unfold neg
  rw [UInt32.toNat_xor]
  rfl

theorem magnitude_neg (x : Single) : x.neg.magnitude = x.magnitude := by
  unfold magnitude
  rw [toNat_bits_neg]
  change (x.bits.toNat ^^^ 2 ^ 31) % 2 ^ 31 = x.bits.toNat % 2 ^ 31
  rw [Nat.xor_mod_two_pow, Nat.mod_self, Nat.xor_zero]

theorem isNegative_neg (x : Single) : x.neg.isNegative = !x.isNegative := by
  have hx : x.bits.toNat < 2 ^ 32 := x.bits.toNat_lt
  have hy : x.neg.bits.toNat < 2 ^ 32 := x.neg.bits.toNat_lt
  have hhalf : x.neg.bits.toNat / 2 ^ 31 = x.bits.toNat / 2 ^ 31 ^^^ 1 := by
    rw [toNat_bits_neg, Nat.xor_div_two_pow, Nat.div_self (Nat.two_pow_pos 31)]
  unfold isNegative
  rcases Nat.lt_or_ge x.bits.toNat 0x80000000 with hlt | hge
  · have hzero : x.bits.toNat / 2 ^ 31 = 0 := by omega
    rw [hzero, Nat.zero_xor] at hhalf
    have hge : 0x80000000 ≤ x.neg.bits.toNat := by omega
    simp [hge, hlt]
  · have hone : x.bits.toNat / 2 ^ 31 = 1 := by omega
    rw [hone, Nat.xor_self] at hhalf
    have hlt : x.neg.bits.toNat < 0x80000000 := by omega
    simp [hge, hlt]

theorem isFinite_neg (x : Single) : x.neg.isFinite = x.isFinite := by
  unfold isFinite
  rw [magnitude_neg]

theorem significand_neg (x : Single) : x.neg.significand = x.significand := by
  unfold significand
  rw [magnitude_neg]

theorem units_neg (x : Single) : x.neg.units = -x.units := by
  rw [units_eq, units_eq, magnitude_neg, isNegative_neg]
  cases x.isNegative <;> simp

end Negation

/-- The distance between a number and an int, in units of `2 ^ (-149)`. -/
def distance (x : Single) (n : Int) : Nat := (x.units - n * 2 ^ 149).natAbs

theorem abs_real_sub (x : Single) (n : Int) : |x.real - n| = x.distance n / 2 ^ 149 := by
  have hpos : (0 : ℝ) < 2 ^ 149 := pow_pos two_pos 149
  have hsub : x.real - n = ((x.units - n * 2 ^ 149 : Int) : ℝ) / 2 ^ 149 := by
    unfold real
    rw [div_sub' hpos.ne']
    push_cast
    ring
  rw [hsub, abs_div, abs_of_pos hpos, ← Int.cast_abs, Int.abs_eq_natAbs, Int.cast_natCast]
  rfl

theorem real_neg (x : Single) : x.neg.real = -x.real := by
  unfold real
  rw [units_neg, Int.cast_neg, neg_div]

theorem abs_real_neg_sub (x : Single) (n : Int) :
    |x.neg.real - n| = |x.real - (-n : Int)| := by
  rw [real_neg, Int.cast_neg, sub_neg_eq_add, ← abs_neg, neg_sub, sub_neg_eq_add, add_comm]

/-- A finite number than which no other one is nearer to an int. Of two such numbers it is the
one with an even significand. -/
structure IsNearest (x : Single) (n : Int) : Prop where
  finite : x.isFinite = true
  nearest : ∀ y : Single, y.isFinite = true → |x.real - n| ≤ |y.real - n|
  even : ∀ y : Single, y.isFinite = true → y.real ≠ x.real → |y.real - n| = |x.real - n| →
    x.significand % 2 = 0

theorem IsNearest.isNaN_eq_false (h : x.IsNearest n) : x.isNaN = false := by
  have hlt : x.magnitude < 0x7f800000 := by simpa [isFinite] using h.finite
  simp only [isNaN, decide_eq_false_iff_not]
  omega

theorem IsNearest.of_distance (hfinite : x.isFinite = true)
    (hle : ∀ y : Single, x.distance n ≤ y.distance n)
    (heven : ∀ y : Single, y.units ≠ x.units → y.distance n = x.distance n →
      x.significand % 2 = 0) : x.IsNearest n where
  finite := hfinite
  nearest y _ := by
    rw [abs_real_sub, abs_real_sub]
    exact div_le_div_of_nonneg_right (Nat.cast_le.2 (hle y)) (pow_nonneg zero_le_two 149)
  even y _ hne heq := by
    refine heven y (fun hunits => hne (congrArg (fun u : Int => (u : ℝ) / 2 ^ 149) hunits)) ?_
    rw [abs_real_sub, abs_real_sub] at heq
    exact Nat.cast_injective (div_left_inj' (pow_ne_zero 149 two_ne_zero) |>.1 heq)

section Uniqueness

theorem rank_mod_two (x : Single) : x.rank % 2 = 0 ↔ x.significand % 2 = 0 := by
  rw [significand_mod_two]
  unfold rank
  split <;> omega

theorem rank_neg (x : Single) : x.neg.rank = -x.rank := by
  unfold rank
  rw [magnitude_neg, isNegative_neg]
  cases x.isNegative <;> simp

theorem exists_finite_rank {r : Int} (h : r.natAbs < 0x7f800000) :
    ∃ z : Single, z.isFinite = true ∧ z.rank = r := by
  obtain ⟨z, hbits⟩ : ∃ z : Single, z.bits.toNat = r.natAbs :=
    ⟨⟨UInt32.ofNat r.natAbs⟩, UInt32.toNat_ofNat_of_lt' (by change r.natAbs < 4294967296; omega)⟩
  obtain ⟨hsign, hmagnitude, hfinite⟩ := plain_of_bits_lt (x := z) (by omega)
  have hrank : z.rank = r.natAbs := by
    unfold rank
    rw [hsign, hmagnitude, hbits]
    rfl
  rcases Int.lt_or_le r 0 with hneg | hpos
  · refine ⟨z.neg, (isFinite_neg z).trans hfinite, ?_⟩
    rw [rank_neg]
    omega
  · exact ⟨z, hfinite, by omega⟩

/-- Two numbers with even significands have another one between them. -/
theorem exists_between (hx : x.isFinite = true) (hy : y.isFinite = true) (hlt : x.real < y.real)
    (hevenx : x.significand % 2 = 0) (heveny : y.significand % 2 = 0) :
    ∃ z : Single, z.isFinite = true ∧ x.real < z.real ∧ z.real < y.real := by
  have hx : x.magnitude < 0x7f800000 := by simpa [isFinite] using hx
  have hy : y.magnitude < 0x7f800000 := by simpa [isFinite] using hy
  rw [real_lt_real] at hlt
  have hrankx := (rank_mod_two x).2 hevenx
  have hranky := (rank_mod_two y).2 heveny
  have hbound : (x.rank + 1).natAbs < 0x7f800000 := by
    unfold rank at hlt ⊢
    split at hlt <;> split at hlt <;> split <;> omega
  obtain ⟨z, hz, hrank⟩ := exists_finite_rank hbound
  refine ⟨z, hz, real_lt_real.2 ?_, real_lt_real.2 ?_⟩
  · omega
  · omega

theorem IsNearest.real_le (hx : x.IsNearest n) (hy : y.IsNearest n) : y.real ≤ x.real := by
  by_contra hnot
  have hlt : x.real < y.real := not_le.1 hnot
  have heq : |x.real - n| = |y.real - n| :=
    le_antisymm (hx.nearest y hy.finite) (hy.nearest x hx.finite)
  obtain ⟨z, hz, hxz, hzy⟩ := exists_between hx.finite hy.finite hlt
    (hx.even y hy.finite hlt.ne' heq.symm) (hy.even x hx.finite hlt.ne heq)
  have hnearest := hx.nearest z hz
  -- The int lies in the middle, and so `z` would be nearer than both ends.
  have hmiddle : x.real - n = -(y.real - n) := by
    rcases abs_eq_abs.1 heq with h | h
    · linarith
    · exact h
  have hcloser : |z.real - n| < |x.real - n| := by
    have hneg : x.real - n < 0 := by linarith
    rw [abs_of_neg hneg, abs_lt]
    constructor <;> linarith
  exact hcloser.not_ge hnearest

/-- An int has no more than one nearest number. -/
theorem IsNearest.real_eq (hx : x.IsNearest n) (hy : y.IsNearest n) : x.real = y.real :=
  le_antisymm (hy.real_le hx) (hx.real_le hy)

end Uniqueness

section Rounded

/-- The scale at which `n` units have a full significand. -/
def fullScale (n : Nat) : Nat := Nat.log2 n - 23

theorem lt_pow_fullScale (n : Nat) : n < 2 ^ fullScale n * 0x1000000 := by
  have hlt := Nat.lt_log2_self (n := n)
  have hle : 2 ^ (Nat.log2 n + 1) ≤ 2 ^ (fullScale n + 24) :=
    Nat.pow_le_pow_right (by decide) (by unfold fullScale; omega)
  rw [Nat.pow_add 2 (fullScale n)] at hle
  exact Nat.lt_of_lt_of_le hlt hle

theorem pow_fullScale_le {n : Nat} (h : fullScale n ≠ 0) : 2 ^ fullScale n * 0x800000 ≤ n := by
  have hlog : Nat.log2 n = fullScale n + 23 := by
    unfold fullScale at h ⊢
    omega
  have hne : n ≠ 0 := by
    rintro rfl
    exact h rfl
  have hle := Nat.log2_self_le hne
  rw [hlog, Nat.pow_add] at hle
  exact hle

/-- The significand of `n` units, rounded. -/
def rounded (n : Nat) : Nat := divToEven n (2 ^ fullScale n)

theorem rounded_le (n : Nat) : rounded n ≤ 0x1000000 := by
  have hle := two_mul_divToEven_le n (2 ^ fullScale n)
  have hlt := lt_pow_fullScale n
  have hstep : 2 ^ fullScale n * rounded n < 2 ^ fullScale n * (0x1000000 + 1) := by
    unfold rounded
    rw [Nat.mul_add]
    omega
  exact Nat.le_of_lt_succ (Nat.lt_of_mul_lt_mul_left hstep)

theorem le_rounded {n : Nat} (h : fullScale n ≠ 0) : 0x800000 ≤ rounded n := by
  have hle := le_two_mul_divToEven n (Nat.two_pow_pos (fullScale n))
  have hfull := pow_fullScale_le h
  have hstep : 2 ^ fullScale n * 0x800000 < 2 ^ fullScale n * (rounded n + 1) := by
    have hpos := Nat.two_pow_pos (fullScale n)
    unfold rounded
    rw [Nat.mul_add]
    omega
  exact Nat.le_of_lt_succ (Nat.lt_of_mul_lt_mul_left hstep)

theorem gridUnits_rounded (n : Nat) :
    gridUnits (fullScale n * 0x800000 + rounded n) = 2 ^ fullScale n * rounded n := by
  rw [gridUnits_add (rounded_le n) (or_iff_not_imp_left.2 le_rounded), Nat.mul_comm]

/-- A number that is no multiple of the step lies below the smallest full significand. -/
theorem gridUnits_cases (e magnitude : Nat) :
    (∃ t, gridUnits magnitude = 2 ^ e * t) ∨ gridUnits magnitude < 2 ^ e * 0x800000 ∧ e ≠ 0 := by
  obtain ⟨f, s, rfl, hs, h⟩ := exists_scale magnitude
  rw [gridUnits_add (Nat.le_of_lt hs) h]
  rcases Nat.lt_or_ge f e with hlt | hge
  · obtain ⟨k, rfl⟩ := Nat.exists_eq_add_of_lt hlt
    refine .inr ⟨?_, by omega⟩
    calc
      s * 2 ^ f < 0x1000000 * 2 ^ f := Nat.mul_lt_mul_of_pos_right hs (Nat.two_pow_pos f)
      _ = 2 ^ (f + 1) * 0x800000 := by rw [Nat.pow_succ]; omega
      _ ≤ 2 ^ (f + k + 1) * 0x800000 :=
        Nat.mul_le_mul_right _ (Nat.pow_le_pow_right (by decide) (by omega))
  · obtain ⟨k, rfl⟩ := Nat.exists_eq_add_of_le hge
    exact .inl ⟨s * 2 ^ k, by rw [Nat.pow_add, Nat.mul_left_comm]⟩

/-- No number is nearer to `n` units than the rounded one. -/
theorem rounded_nearest (n magnitude : Nat) :
    ((2 ^ fullScale n * rounded n : Nat) - n : Int).natAbs ≤
      (gridUnits magnitude - n : Int).natAbs := by
  have hpos := Nat.two_pow_pos (fullScale n)
  rcases gridUnits_cases (fullScale n) magnitude with ⟨t, ht⟩ | ⟨hlt, hscale⟩
  · rw [ht]
    exact divToEven_nearest n hpos t
  -- The smallest full significand is a multiple between the number and the units.
  · have hfull := pow_fullScale_le hscale
    have hnearest := divToEven_nearest n hpos 0x800000
    change ((2 ^ fullScale n * rounded n : Nat) - n : Int).natAbs ≤ _ at hnearest
    omega

theorem rounded_even {n magnitude : Nat} (hne : gridUnits magnitude ≠ 2 ^ fullScale n * rounded n)
    (heq : (gridUnits magnitude - n : Int).natAbs =
      ((2 ^ fullScale n * rounded n : Nat) - n : Int).natAbs) : rounded n % 2 = 0 := by
  have hpos := Nat.two_pow_pos (fullScale n)
  rcases gridUnits_cases (fullScale n) magnitude with ⟨t, ht⟩ | ⟨hlt, hscale⟩
  · rw [ht] at hne heq
    have hother : t ≠ rounded n := fun h => hne (congrArg (2 ^ fullScale n * ·) h)
    exact divToEven_even n hpos (halfway_of_tie n hpos hother heq)
  · have hfull := pow_fullScale_le hscale
    have hnearest := divToEven_nearest n hpos 0x800000
    change ((2 ^ fullScale n * rounded n : Nat) - n : Int).natAbs ≤ _ at hnearest
    omega

end Rounded

section Ints

theorem fullScale_le {n : Nat} (h : n ≤ 2 ^ 31) : fullScale (n * 2 ^ 149) ≤ 157 := by
  have hlt : Nat.log2 (n * 2 ^ 149) < 181 := by
    by_cases hzero : n * 2 ^ 149 = 0
    · rw [hzero]
      decide
    · exact (Nat.log2_lt hzero).2 (by omega)
  unfold fullScale
  omega

theorem bits_ofRatio_one {n : Nat} (h : n ≤ 2 ^ 31) : (ofRatio n 1).bits.toNat =
    fullScale (n * 2 ^ 149) * 0x800000 + rounded (n * 2 ^ 149) := by
  have hscale := fullScale_le h
  have hrounded := rounded_le (n * 2 ^ 149)
  have hbits : (ofRatio n 1).bits = UInt32.ofNat
      (min (fullScale (n * 2 ^ 149) * 0x800000 + rounded (n * 2 ^ 149)) 0x7f800000) := by
    unfold ofRatio rounded fullScale
    dsimp only
    rw [Nat.div_one, Nat.shiftLeft_eq, Nat.shiftLeft_eq 1, Nat.one_mul]
  rw [hbits, Nat.min_eq_left (by omega)]
  exact UInt32.toNat_ofNat_of_lt' (by change _ < 4294967296; omega)

theorem distance_of_negative (h : y.isNegative = true) (n : Nat) :
    y.distance n = gridUnits y.magnitude + n * 2 ^ 149 := by
  unfold distance
  rw [units_eq, if_pos h]
  omega

theorem distance_of_nonnegative (h : y.isNegative = false) (n : Nat) :
    y.distance n = (gridUnits y.magnitude - (n * 2 ^ 149 : Nat) : Int).natAbs := by
  unfold distance
  rw [units_eq, h]
  rfl

theorem ofRatio_isNearest {n : Nat} (h : n ≤ 2 ^ 31) : (ofRatio n 1).IsNearest n := by
  have hscale := fullScale_le h
  have hrounded := rounded_le (n * 2 ^ 149)
  have hbits := bits_ofRatio_one h
  obtain ⟨hsign, hmagnitude, hfinite⟩ := plain_of_bits_lt (x := ofRatio n 1) (by omega)
  rw [hbits] at hmagnitude
  have hunits : (ofRatio n 1).units =
      (2 ^ fullScale (n * 2 ^ 149) * rounded (n * 2 ^ 149) : Nat) := by
    rw [units_eq, hsign, hmagnitude, gridUnits_rounded]
    rfl
  have hdistance := distance_of_nonnegative hsign n
  rw [hmagnitude, gridUnits_rounded] at hdistance
  have horigin := rounded_nearest (n * 2 ^ 149) 0
  rw [gridUnits_zero] at horigin
  refine .of_distance hfinite (fun y => ?_) (fun y hne heq => ?_)
  · rw [hdistance]
    cases hy : y.isNegative with
    | true =>
      rw [distance_of_negative hy]
      omega
    | false =>
      rw [distance_of_nonnegative hy]
      exact rounded_nearest _ _
  · rw [significand_mod_two, hmagnitude]
    rw [hdistance] at heq
    rw [hunits, units_eq] at hne
    have heven : rounded (n * 2 ^ 149) % 2 = 0 := by
      -- Of the numbers with a sign only zero can be as near, and it is there without one, too.
      cases hy : y.isNegative with
      | true =>
        rw [distance_of_negative hy] at heq
        rw [hy, if_pos rfl] at hne
        have hother : gridUnits 0 ≠
            2 ^ fullScale (n * 2 ^ 149) * rounded (n * 2 ^ 149) := by
          rw [gridUnits_zero]
          omega
        refine rounded_even hother ?_
        rw [gridUnits_zero]
        omega
      | false =>
        rw [distance_of_nonnegative hy] at heq
        rw [hy] at hne
        exact rounded_even (fun hunits => hne (congrArg Nat.cast hunits)) heq
    omega

theorem IsNearest.neg (h : x.IsNearest n) : x.neg.IsNearest (-n) where
  finite := (isFinite_neg x).trans h.finite
  nearest y hy := by
    have hle := h.nearest y.neg ((isFinite_neg y).trans hy)
    rw [abs_real_neg_sub] at hle
    rwa [abs_real_neg_sub, neg_neg]
  even y hy hne heq := by
    rw [significand_neg]
    rw [abs_real_neg_sub, neg_neg, ← abs_real_neg_sub] at heq
    refine h.even y.neg ((isFinite_neg y).trans hy) (fun hreal => hne ?_) heq
    rw [real_neg, ← hreal, real_neg, neg_neg]

/-- An int becomes a nearest number. -/
theorem ofInt_isNearest (i : Int32) : (ofInt i.toInt).IsNearest i.toInt := by
  have hlow := i.le_toInt
  have hhigh := i.toInt_lt
  unfold ofInt
  split
  case isTrue hneg =>
    have hnearest := (ofRatio_isNearest (show i.toInt.natAbs ≤ 2 ^ 31 by omega)).neg
    rwa [show -(i.toInt.natAbs : Int) = i.toInt by omega] at hnearest
  case isFalse hpos =>
    have hnearest := ofRatio_isNearest (show i.toInt.natAbs ≤ 2 ^ 31 by omega)
    rwa [show (i.toInt.natAbs : Int) = i.toInt by omega] at hnearest

end Ints

end Single

end StackScript
