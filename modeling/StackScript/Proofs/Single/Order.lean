import Mathlib.Data.EReal.Basic
import Mathlib.Order.Monotone.Basic
import StackScript.Single.Basic

/-!
The numbers that patterns stand for. Every finite number is a whole multiple of `2 ^ (-149)`, and
the multiples grow with the magnitudes: from one magnitude to the next the significand goes up by
one, and when it has run full the scale takes over at the same value. Main statement: the order
of the ranks is the order of the numbers on the extended real line.
-/

namespace StackScript.Single

section Grid

/-- What a magnitude stands for, in units of `2 ^ (-149)`. -/
def gridUnits (magnitude : Nat) : Nat :=
  (if magnitude < 0x800000 then magnitude else magnitude % 0x800000 + 0x800000) *
    2 ^ (magnitude / 0x800000 - 1)

/-- A significand that has run full is the smallest one of the next scale. -/
theorem gridUnits_add {e s : Nat} (hs : s ≤ 0x1000000) (h : e = 0 ∨ 0x800000 ≤ s) :
    gridUnits (e * 0x800000 + s) = s * 2 ^ e := by
  unfold gridUnits
  by_cases hsmall : e * 0x800000 + s < 0x800000
  · obtain rfl : e = 0 := by omega
    have hscale : (0 * 0x800000 + s) / 0x800000 - 1 = 0 := by omega
    rw [if_pos hsmall, hscale, Nat.zero_mul, Nat.zero_add]
  by_cases hfull : s = 0x1000000
  · subst s
    have hsignificand : (e * 0x800000 + 0x1000000) % 0x800000 + 0x800000 = 0x800000 := by omega
    have hscale : (e * 0x800000 + 0x1000000) / 0x800000 - 1 = e + 1 := by omega
    rw [if_neg hsmall, hsignificand, hscale, Nat.pow_succ]
    omega
  · have hsignificand : (e * 0x800000 + s) % 0x800000 + 0x800000 = s := by omega
    have hscale : (e * 0x800000 + s) / 0x800000 - 1 = e := by omega
    rw [if_neg hsmall, hsignificand, hscale]

theorem exists_scale (magnitude : Nat) : ∃ e s, magnitude = e * 0x800000 + s ∧ s < 0x1000000 ∧
    (e = 0 ∨ 0x800000 ≤ s) := by
  refine ⟨magnitude / 0x800000 - 1, magnitude - (magnitude / 0x800000 - 1) * 0x800000, ?_, ?_, ?_⟩
  all_goals omega

theorem strictMono_gridUnits : StrictMono gridUnits := by
  refine strictMono_nat_of_lt_succ fun magnitude => ?_
  obtain ⟨e, s, rfl, hs, h⟩ := exists_scale magnitude
  have hnext : e = 0 ∨ 0x800000 ≤ s + 1 := by omega
  rw [Nat.add_assoc, gridUnits_add (Nat.le_of_lt hs) h, gridUnits_add hs hnext]
  exact Nat.mul_lt_mul_of_pos_right (Nat.lt_succ_self s) (Nat.two_pow_pos e)

theorem gridUnits_zero : gridUnits 0 = 0 := rfl

end Grid

/-- What a finite pattern stands for, in units of `2 ^ (-149)`. -/
def units (x : Single) : Int :=
  if x.isNegative then -((x.significand * 2 ^ x.scale : Nat) : Int)
  else (x.significand * 2 ^ x.scale : Nat)

noncomputable def real (x : Single) : ℝ := x.units / 2 ^ 149

/-- The number on the extended real line that a pattern stands for, if it is no NaN. -/
noncomputable def value (x : Single) : EReal :=
  if x.isFinite then (x.real : EReal) else if x.isNegative then ⊥ else ⊤

variable {x y : Single}

theorem units_eq (x : Single) : x.units =
    if x.isNegative then -(gridUnits x.magnitude : Int) else gridUnits x.magnitude := rfl

theorem units_lt_units : x.units < y.units ↔ x.rank < y.rank := by
  have hlt (m n : Nat) : gridUnits m < gridUnits n ↔ m < n := strictMono_gridUnits.lt_iff_lt
  have hx := hlt 0 x.magnitude
  have hy := hlt 0 y.magnitude
  have hxy := hlt x.magnitude y.magnitude
  have hyx := hlt y.magnitude x.magnitude
  rw [gridUnits_zero] at hx hy
  rw [units_eq, units_eq]
  unfold rank
  split <;> split <;> omega

theorem real_lt_real : x.real < y.real ↔ x.rank < y.rank := by
  have hpos : (0 : ℝ) < 2 ^ 149 := pow_pos two_pos 149
  unfold real
  rw [div_lt_div_iff_of_pos_right hpos, Int.cast_lt, units_lt_units]

/-- A number is finite or one of the two ends of the line. -/
theorem value_cases (h : x.isNaN = false) :
    (x.value = (x.real : EReal) ∧ -0x7f800000 < x.rank ∧ x.rank < 0x7f800000) ∨
      (x.value = ⊤ ∧ x.rank = 0x7f800000) ∨ (x.value = ⊥ ∧ x.rank = -0x7f800000) := by
  have hle : x.magnitude ≤ 0x7f800000 := by simpa [isNaN] using h
  unfold value rank
  by_cases hfinite : x.isFinite = true
  · have hlt : x.magnitude < 0x7f800000 := by simpa [isFinite] using hfinite
    rw [if_pos hfinite]
    refine .inl ⟨rfl, ?_⟩
    split <;> omega
  · have hmagnitude : x.magnitude = 0x7f800000 := by
      have hge : ¬x.magnitude < 0x7f800000 := by simpa [isFinite] using hfinite
      omega
    rw [if_neg hfinite, hmagnitude]
    by_cases hsign : x.isNegative = true
    · rw [if_pos hsign, if_pos hsign]
      exact .inr (.inr ⟨rfl, rfl⟩)
    · rw [if_neg hsign, if_neg hsign]
      exact .inr (.inl ⟨rfl, rfl⟩)

theorem value_lt_value (hx : x.isNaN = false) (hy : y.isNaN = false) :
    x.value < y.value ↔ x.rank < y.rank := by
  rcases value_cases hx with ⟨hvx, hlx, hux⟩ | ⟨hvx, hrx⟩ | ⟨hvx, hrx⟩
  · rcases value_cases hy with ⟨hvy, hly, huy⟩ | ⟨hvy, hry⟩ | ⟨hvy, hry⟩
    · rw [hvx, hvy, EReal.coe_lt_coe_iff, real_lt_real]
    · rw [hvx, hvy, hry]
      exact iff_of_true (EReal.coe_lt_top _) hux
    · rw [hvx, hvy, hry]
      exact iff_of_false not_lt_bot (by omega)
  · rcases value_cases hy with ⟨hvy, hly, huy⟩ | ⟨hvy, hry⟩ | ⟨hvy, hry⟩
    all_goals
      rw [hvx, hrx]
      exact iff_of_false not_top_lt (by omega)
  · rcases value_cases hy with ⟨hvy, hly, huy⟩ | ⟨hvy, hry⟩ | ⟨hvy, hry⟩
    · rw [hvx, hvy, hrx]
      exact iff_of_true (EReal.bot_lt_coe _) hly
    · rw [hvx, hvy, hrx, hry]
      exact iff_of_true bot_lt_top (by decide)
    · rw [hvx, hvy, hrx, hry]
      exact iff_of_false not_lt_bot (by decide)

theorem value_le_value (hx : x.isNaN = false) (hy : y.isNaN = false) :
    x.value ≤ y.value ↔ x.rank ≤ y.rank := by
  rw [← not_lt, ← not_lt, value_lt_value hy hx]

/-- The tests of the patterns are those of the numbers, and a NaN passes none. -/
theorem less_iff : x.less y = true ↔ x.isNaN = false ∧ y.isNaN = false ∧ x.value < y.value := by
  unfold less
  cases hx : x.isNaN with
  | true => simp
  | false =>
    cases hy : y.isNaN with
    | true => simp
    | false => simp [value_lt_value hx hy]

theorem lessEqual_iff :
    x.lessEqual y = true ↔ x.isNaN = false ∧ y.isNaN = false ∧ x.value ≤ y.value := by
  unfold lessEqual
  cases hx : x.isNaN with
  | true => simp
  | false =>
    cases hy : y.isNaN with
    | true => simp
    | false => simp [value_le_value hx hy]

end StackScript.Single
