import Mathlib.Data.Int.ModEq
import StackScript.Operator.Apply

/-!
Arithmetic on ints. Sums, differences and products are the exact ones up to a multiple of 2^32;
quotients are rounded toward zero, so that the remainder has the sign of the dividend. The one
quotient that is out of range wraps around as a product does, and the identity of quotient and
remainder holds there as well. Main statement: these laws of the operators on any two ints, and
that division by zero is told of ints alone.
-/

namespace StackScript

namespace BinaryOp

/-- The operation on integers without a bound. -/
def unbounded? : BinaryOp → Option (Int → Int → Int)
  | add => some (· + ·)
  | sub => some (· - ·)
  | mul => some (· * ·)
  | _ => none

/-- Quotient and remainder of two ints, as the operators give them. -/
structure Divides (a b q r : Int32) : Prop where
  quotient : apply div (.int a) (.int b) = .ok (.int q)
  remainder : apply mod (.int a) (.int b) = .ok (.int r)
  restored : ((apply mul (.int q) (.int b)).bind fun p => apply add p (.int r)) = .ok (.int a)
  below : r.toInt.natAbs < b.toInt.natAbs
  sign : r = 0 ∨ r.toInt.sign = a.toInt.sign
  /-- Only one quotient is out of range. -/
  inRange : ¬(a = Int32.minValue ∧ b = -1) → q.toInt * b.toInt + r.toInt = a.toInt
  outOfRange : a = Int32.minValue ∧ b = -1 → q = Int32.minValue ∧ r = 0

theorem modEq_bmod (n : Int) : n.bmod (2 ^ 32) ≡ n [ZMOD 2 ^ 32] := Int.bmod_emod

/-- The exact operations wrap around. -/
theorem apply_unbounded {op : BinaryOp} {f : Int → Int → Int} (h : op.unbounded? = some f)
    (a b : Int32) : ∃ c : Int32, op.apply (.int a) (.int b) = .ok (.int c) ∧
      c.toInt ≡ f a.toInt b.toInt [ZMOD 2 ^ 32] := by
  cases op with
  | add =>
    obtain rfl := Option.some.inj h
    refine ⟨a + b, rfl, ?_⟩
    rw [Int32.toInt_add]
    exact modEq_bmod _
  | sub =>
    obtain rfl := Option.some.inj h
    refine ⟨a - b, rfl, ?_⟩
    rw [Int32.toInt_sub]
    exact modEq_bmod _
  | mul =>
    obtain rfl := Option.some.inj h
    refine ⟨a * b, rfl, ?_⟩
    rw [Int32.toInt_mul]
    exact modEq_bmod _
  | _ => cases h

section Division

variable {a b : Int32}

theorem isIntZero_int (hb : b ≠ 0) : isIntZero (.int a) (.int b) = false :=
  beq_false_of_ne hb

theorem apply_div_int (hb : b ≠ 0) : apply div (.int a) (.int b) = .ok (.int (a / b)) := by
  have hdiv : apply div (.int a) (.int b) =
      if isIntZero (.int a) (.int b) then .error .divisionByZero else .ok (.int (a / b)) := rfl
  rw [hdiv, isIntZero_int hb]
  rfl

theorem apply_mod_int (hb : b ≠ 0) : apply mod (.int a) (.int b) = .ok (.int (a % b)) := by
  have hmod : apply mod (.int a) (.int b) =
      if isIntZero (.int a) (.int b) then .error .divisionByZero else .ok (.int (a % b)) := rfl
  rw [hmod, isIntZero_int hb]
  rfl

/-- Quotient and remainder give back the dividend, also where the quotient wraps around: ints
are integers up to a multiple of 2^32, and for integers the identity holds. -/
theorem div_mul_add_mod (a b : Int32) : a / b * b + a % b = a := by
  have hdiv : Int32.ofInt (a.toInt.tdiv b.toInt) = a / b := by
    rw [Int32.ofInt_tdiv a.minValue_le_toInt a.toInt_le b.minValue_le_toInt b.toInt_le,
      Int32.ofInt_toInt, Int32.ofInt_toInt]
  have hmod : Int32.ofInt (a.toInt.tmod b.toInt) = a % b := by
    rw [← Int32.toInt_mod, Int32.ofInt_toInt]
  have hb : Int32.ofInt b.toInt = b := Int32.ofInt_toInt b
  calc
    a / b * b + a % b = Int32.ofInt (a.toInt.tdiv b.toInt) * Int32.ofInt b.toInt +
        Int32.ofInt (a.toInt.tmod b.toInt) := by rw [hdiv, hmod, hb]
    _ = Int32.ofInt (a.toInt.tdiv b.toInt * b.toInt + a.toInt.tmod b.toInt) := by
      rw [Int32.ofInt_add, Int32.ofInt_mul]
    _ = a := by rw [Int.tdiv_mul_add_tmod, Int32.ofInt_toInt]

theorem natAbs_mod_lt (hb : b ≠ 0) : (a % b).toInt.natAbs < b.toInt.natAbs := by
  have hne : b.toInt ≠ 0 := by
    rw [← Int32.toInt_zero]
    exact fun h => hb (Int32.toInt_inj.1 h)
  rw [Int32.toInt_mod, Int.natAbs_tmod]
  exact Nat.mod_lt _ (Int.natAbs_pos.2 hne)

theorem sign_mod (a b : Int32) : a % b = 0 ∨ (a % b).toInt.sign = a.toInt.sign := by
  by_cases hdvd : b.toInt ∣ a.toInt
  · refine .inl (Int32.toInt_inj.1 ?_)
    rw [Int32.toInt_mod, Int.tmod_eq_zero_of_dvd hdvd, Int32.toInt_zero]
  · refine .inr ?_
    rw [Int32.toInt_mod, Int.sign_tmod, if_neg hdvd]

theorem toInt_div_mul_add_mod (h : ¬(a = Int32.minValue ∧ b = -1)) :
    (a / b).toInt * b.toInt + (a % b).toInt = a.toInt := by
  have hdiv : (a / b).toInt = a.toInt.tdiv b.toInt := by
    by_cases ha : a = Int32.minValue
    · exact Int32.toInt_div_of_ne_right a b fun hb => h ⟨ha, hb⟩
    · exact Int32.toInt_div_of_ne_left a b ha
  rw [hdiv, Int32.toInt_mod, Int.tdiv_mul_add_tmod]

theorem divides_int (a : Int32) (hb : b ≠ 0) : Divides a b (a / b) (a % b) where
  quotient := apply_div_int hb
  remainder := apply_mod_int hb
  restored := congrArg (fun c => Except.ok (Value.int c)) (div_mul_add_mod a b)
  below := natAbs_mod_lt hb
  sign := sign_mod a b
  inRange := toInt_div_mul_add_mod
  outOfRange := by
    rintro ⟨rfl, rfl⟩
    decide

end Division

section DivisionByZero

variable {a b : Value}

theorem arithmetic_ne (onInts : Int32 → Int32 → Int32) (onNumbers : Single → Single → Single)
    (a b : Value) : arithmetic onInts onNumbers a b ≠ .error .divisionByZero := by
  unfold arithmetic
  split
  · rintro ⟨⟩
  · split <;> rintro ⟨⟩

theorem comparison_ne (test : Single → Single → Bool) (a b : Value) :
    comparison test a b ≠ .error .divisionByZero := by
  unfold comparison
  split
  · rintro ⟨⟩
  · split <;> rintro ⟨⟩

theorem integral_ne (onInts : Int32 → Int32 → Int32) (a b : Value) :
    integral onInts a b ≠ .error .divisionByZero := by
  unfold integral
  split <;> rintro ⟨⟩

theorem concatenation_ne (a b : Value) : concatenation a b ≠ .error .divisionByZero := by
  unfold concatenation
  split
  · rintro ⟨⟩
  · exact arithmetic_ne _ _ _ _

theorem map_equality_ne (f : Bool → Value) (a b : Value) :
    (equality a b).map f ≠ .error .divisionByZero := by
  unfold equality
  split <;> rintro ⟨⟩

theorem isIntZero_iff : isIntZero a b = true ↔ (∃ i, a = .int i) ∧ b = .int 0 := by
  constructor
  · intro h
    unfold isIntZero at h
    split at h
    · exact ⟨⟨_, rfl⟩, congrArg Value.int (eq_of_beq h)⟩
    · cases h
  · rintro ⟨⟨i, rfl⟩, rfl⟩
    rfl

theorem applyNonNull_ne {op : BinaryOp} (h : (op = div ∨ op = mod) → isIntZero a b = false) :
    op.applyNonNull a b ≠ .error .divisionByZero := by
  cases op with
  | div =>
    unfold applyNonNull
    rw [h (.inl rfl)]
    exact arithmetic_ne _ _ a b
  | mod =>
    unfold applyNonNull
    rw [h (.inr rfl)]
    exact integral_ne _ a b
  | add => exact concatenation_ne a b
  | sub | mul => exact arithmetic_ne _ _ a b
  | less | lessEqual | greater | greaterEqual => exact comparison_ne _ a b
  | bitAnd | bitOr => exact integral_ne _ a b
  | equal | notEqual => rintro ⟨⟩

/-- Division by zero is told of a quotient or a remainder of an int and the int zero, and of
nothing else. -/
theorem apply_eq_divisionByZero (op : BinaryOp) (a b : Value) :
    op.apply a b = .error .divisionByZero ↔
      (op = div ∨ op = mod) ∧ (∃ i, a = .int i) ∧ b = .int 0 := by
  constructor
  · intro h
    by_contra hnot
    have hzero (hop : op = div ∨ op = mod) : isIntZero a b = false :=
      Bool.eq_false_iff.2 fun htrue => hnot ⟨hop, isIntZero_iff.1 htrue⟩
    unfold apply at h
    split at h
    · exact map_equality_ne _ a b h
    · exact map_equality_ne _ a b h
    · split at h
      · cases h
      · exact applyNonNull_ne hzero h
  · rintro ⟨rfl | rfl, ⟨i, rfl⟩, rfl⟩ <;> rfl

end DivisionByZero

/-- Ints compute as integers up to a multiple of 2^32. -/
theorem ints_wrap_around :
    (∀ op f, unbounded? op = some f → ∀ a b : Int32, ∃ c : Int32,
      op.apply (.int a) (.int b) = .ok (.int c) ∧ c.toInt ≡ f a.toInt b.toInt [ZMOD 2 ^ 32]) ∧
    (∀ a b : Int32, b ≠ 0 → ∃ q r, Divides a b q r) ∧
    (∀ op v w, op.apply v w = .error .divisionByZero ↔
      (op = div ∨ op = mod) ∧ (∃ a, v = .int a) ∧ w = .int 0) ∧
    ∀ a : Int32, UnaryOp.negate.apply (.int a) = apply sub (.int 0) (.int a) ∧
      UnaryOp.bitNot.apply (.int a) =
        (UnaryOp.negate.apply (.int a)).bind fun n => apply sub n (.int 1) := by
  refine ⟨fun op f h a b => apply_unbounded h a b, fun a b hb => ⟨_, _, divides_int a hb⟩,
    apply_eq_divisionByZero, fun a => ⟨?_, ?_⟩⟩
  · have hsub : apply sub (.int 0) (.int a) = .ok (.int (0 - a)) := rfl
    rw [hsub, Int32.zero_sub]
    rfl
  · have hsub : ((UnaryOp.negate.apply (.int a)).bind fun n => apply sub n (.int 1)) =
        .ok (.int (-a - 1)) := rfl
    rw [hsub, ← Int32.not_eq_neg_add]
    rfl

/-- A product that wraps around, and the quotient that is out of range. -/
theorem ints_wrap_around_least :
    (∃ c : Int32, apply mul (.int 65537) (.int 65537) = .ok (.int c) ∧
      c.toInt ≡ 65537 * 65537 [ZMOD 2 ^ 32]) ∧
    ∃ r, Divides Int32.minValue (-1) Int32.minValue r := by
  obtain ⟨hexact, hdivides, -, -⟩ := ints_wrap_around
  obtain ⟨q, r, h⟩ := hdivides Int32.minValue (-1) (by decide)
  obtain ⟨rfl, -⟩ := h.outOfRange ⟨rfl, rfl⟩
  exact ⟨hexact mul _ rfl 65537 65537, r, h⟩

end BinaryOp

end StackScript
