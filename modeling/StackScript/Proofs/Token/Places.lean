import Mathlib.Data.List.Induction
import StackScript.Cursor

/-!
The place behind a piece of text, counted from the text alone: one line for each line feed, one
column for each character since the last one. The marks of a cursor keep the same numbers in 32
bits, so that the order of places in a text of less than 2^32 characters is the order of the
positions that are told.
-/

namespace StackScript

/-- A line and a column without a bound. -/
structure Place where
  line : Nat
  column : Nat
  deriving DecidableEq

def Position.Before (p q : Position) : Prop :=
  p.line < q.line ∨ p.line = q.line ∧ p.column < q.column

namespace Place

/-- The place of a character behind these. -/
def behind (cs : List Char) : Place where
  line := 1 + cs.count '\n'
  column := 1 + (cs.reverse.takeWhile (· ≠ '\n')).length

def position (p : Place) (file : String) : Position :=
  ⟨file, UInt32.ofNat p.line, UInt32.ofNat p.column⟩

def Before (p q : Place) : Prop := p.line < q.line ∨ p.line = q.line ∧ p.column < q.column

theorem Before.trans {p q r : Place} (h : p.Before q) (h' : q.Before r) : p.Before r := by
  unfold Before at *
  omega

theorem behind_newline (cs : List Char) :
    behind (cs ++ ['\n']) = ⟨(behind cs).line + 1, 1⟩ := by
  simp [behind]
  omega

theorem behind_other (cs : List Char) {c : Char} (hc : c ≠ '\n') :
    behind (cs ++ [c]) = ⟨(behind cs).line, (behind cs).column + 1⟩ := by
  simp [behind, hc]
  omega

theorem before_append (cs : List Char) {more : List Char} (hmore : more ≠ []) :
    (behind cs).Before (behind (cs ++ more)) := by
  have hone (cs : List Char) (c : Char) : (behind cs).Before (behind (cs ++ [c])) := by
    by_cases hc : c = '\n'
    · rw [hc, behind_newline]
      exact .inl (Nat.lt_succ_self _)
    · rw [behind_other cs hc]
      exact .inr ⟨rfl, Nat.lt_succ_self _⟩
  induction more generalizing cs with
  | nil => exact absurd rfl hmore
  | cons c more ih =>
    by_cases hnil : more = []
    · rw [hnil]
      exact hone cs c
    · have hlater := ih (cs ++ [c]) hnil
      rw [List.append_assoc] at hlater
      exact (hone cs c).trans hlater

theorem before_take {source : List Char} {i j : Nat} (hij : i < j) (hj : j ≤ source.length) :
    (behind (source.take i)).Before (behind (source.take j)) := by
  obtain ⟨d, rfl⟩ := Nat.exists_eq_add_of_lt hij
  rw [Nat.add_assoc, List.take_add]
  refine before_append _ (List.ne_nil_of_length_pos ?_)
  rw [List.length_take, List.length_drop]
  omega

theorem behind_le (cs : List Char) :
    (behind cs).line ≤ cs.length + 1 ∧ (behind cs).column ≤ cs.length + 1 := by
  have hcount : cs.count '\n' ≤ cs.length := List.count_le_length
  have htake := (List.takeWhile_prefix (l := cs.reverse) (· ≠ '\n')).length_le
  rw [List.length_reverse] at htake
  simp only [behind]
  omega

theorem toNat_position {cs : List Char} (hcs : cs.length + 1 < 0x100000000) (file : String) :
    ((behind cs).position file).line.toNat = (behind cs).line ∧
      ((behind cs).position file).column.toNat = (behind cs).column := by
  have hle := behind_le cs
  simp only [position, UInt32.toNat_ofNat']
  exact ⟨Nat.mod_eq_of_lt (by omega), Nat.mod_eq_of_lt (by omega)⟩

theorem Before.position {cs cs' : List Char} (h : (behind cs).Before (behind cs'))
    (hcs : cs.length + 1 < 0x100000000) (hcs' : cs'.length + 1 < 0x100000000) (file : String) :
    ((behind cs).position file).Before ((behind cs').position file) := by
  obtain ⟨hline, hcolumn⟩ := toNat_position hcs file
  obtain ⟨hline', hcolumn'⟩ := toNat_position hcs' file
  rw [Position.Before, UInt32.lt_iff_toNat_lt, UInt32.lt_iff_toNat_lt, ← UInt32.toNat_inj, hline,
    hline', hcolumn, hcolumn']
  exact h

end Place

namespace Mark

theorem offset_foldl (m : Mark) (cs : List Char) :
    (cs.foldl after m).offset = m.offset + cs.length := by
  induction cs generalizing m with
  | nil => rfl
  | cons c cs ih =>
    rw [List.foldl_cons, ih, offset_after, List.length_cons]
    omega

theorem position_foldl (cs : List Char) (file : String) :
    (cs.foldl after {}).position file = (Place.behind cs).position file := by
  induction cs using List.reverseRecOn with
  | nil => rfl
  | append_singleton cs c ih =>
    obtain ⟨-, hline, hcolumn⟩ := Position.mk.inj ih
    rw [List.foldl_append, List.foldl_cons, List.foldl_nil]
    by_cases hc : c = '\n'
    · rw [hc, Place.behind_newline]
      simp only [after, if_pos, position, hline, Place.position, UInt32.ofNat_add]
      rfl
    · rw [Place.behind_other cs hc]
      simp only [after, if_neg hc, position, hline, hcolumn, Place.position, UInt32.ofNat_add]
      rfl

end Mark

end StackScript
