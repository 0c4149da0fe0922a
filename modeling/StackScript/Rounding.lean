/-!
Quotients of naturals rounded to the nearest natural, a half going to the even
neighbour. The result is never more than half a unit off.
-/

namespace StackScript

def divToEven (num den : Nat) : Nat :=
  let q := num / den
  let r := num % den
  if 2 * r < den then q else if den < 2 * r then q + 1 else q + q % 2

theorem divToEven_mul (q : Nat) {den : Nat} (h : 0 < den) : divToEven (q * den) den = q := by
  simp [divToEven, Nat.mul_div_cancel q h, h]

theorem divToEven_eq_or (num den : Nat) :
    divToEven num den = num / den ∧ 2 * (num % den) ≤ den ∨
      divToEven num den = num / den + 1 ∧ den ≤ 2 * (num % den) := by
  unfold divToEven
  dsimp only
  split
  · exact Or.inl ⟨rfl, by omega⟩
  · split
    · exact Or.inr ⟨rfl, by omega⟩
    · rcases Nat.mod_two_eq_zero_or_one (num / den) with h | h
      · exact Or.inl ⟨by omega, by omega⟩
      · exact Or.inr ⟨by omega, by omega⟩

theorem two_mul_divToEven_le (num den : Nat) :
    2 * (den * divToEven num den) ≤ 2 * num + den := by
  have hnum := Nat.div_add_mod num den
  rcases divToEven_eq_or num den with ⟨h, hr⟩ | ⟨h, hr⟩
  · rw [h]
    omega
  · rw [h, Nat.mul_add]
    omega

theorem le_two_mul_divToEven (num : Nat) {den : Nat} (h : 0 < den) :
    2 * num ≤ 2 * (den * divToEven num den) + den := by
  have hnum := Nat.div_add_mod num den
  have hr := Nat.mod_lt num h
  rcases divToEven_eq_or num den with ⟨he, hle⟩ | ⟨he, hle⟩
  · rw [he]
    omega
  · rw [he, Nat.mul_add]
    omega

end StackScript
