import StackScript.Proofs.Single.Reading
import StackScript.Proofs.Token.Spelling

/-!
Literals read back from their spellings: each is one token, which stands for the value
that is spelled.
-/

namespace StackScript

/-- The tokens are one of this kind, which stands for this value. -/
def IsLiteral (kind : TokenKind) (v : Value) (ts : List Token) : Prop :=
  ∃ t, ts = [t] ∧ t.kind = kind ∧ t.literal = some v

theorem Spells.literal {ends : List Char → Prop} {first : Char} {more : List Char}
    {kind : TokenKind} {v : Value}
    (h : ∀ rest, ends rest → IsToken first more rest kind (some v)) :
    Spells ends (first :: more) (IsLiteral kind v) :=
  (Spells.token h).mono fun _ ⟨_, hts⟩ => ⟨_, hts, rfl, rfl⟩

section Digits

theorem isSpace_of_isDigit {c : Char} (h : c.isDigit = true) :
    Gap.isSpace c = false ∧ c ≠ '/' := by
  refine ⟨?_, ?_⟩
  · unfold Gap.isSpace
    simp only [Bool.or_eq_false_iff, beq_eq_false_iff_ne]
    refine ⟨⟨⟨?_, ?_⟩, ?_⟩, ?_⟩ <;> rintro rfl <;> contradiction
  · rintro rfl
    contradiction

theorem Lexeme.read_digit {first : Char} (h : first.isDigit = true) (file : String) (m : Mark)
    (cs : List Char) : Lexeme.read file m first cs = readNumber first cs := by
  unfold Lexeme.read
  split
  all_goals first
    | exact absurd h (by decide)
    | rw [if_pos h]

theorem EndsNumber.not_digit {rest : List Char} (h : EndsNumber rest) (c : Char)
    (hc : rest.head? = some c) : c.isDigit = false := by
  simp only [EndsNumber, hc, Option.all_some, Bool.not_or, Bool.and_eq_true,
    Bool.not_eq_true'] at h
  exact h.1.2

theorem EndsNumber.not_point {rest : List Char} (h : EndsNumber ('.' :: rest)) : False := by
  contradiction

theorem isToken_int {first : Char} {more rest : List Char} (hfirst : first.isDigit = true)
    (hmore : ∀ c ∈ more, c.isDigit = true) (hrest : EndsNumber rest) :
    IsToken first more rest .int (Lexeme.intLiteral (first :: more)) := by
  obtain ⟨hspace, hslash⟩ := isSpace_of_isDigit hfirst
  obtain ⟨htake, hdrop⟩ := takeWhile_append_stop hmore hrest.not_digit
  refine ⟨Gap.skip_sign hspace hslash, fun file m => ?_, by decide⟩
  rw [Lexeme.read_digit hfirst]
  unfold Lexeme.readNumber
  dsimp only
  rw [htake, hdrop]
  split
  · exact hrest.not_point.elim
  · rfl

theorem isToken_number {first : Char} {more part rest : List Char}
    (hfirst : first.isDigit = true) (hmore : ∀ c ∈ more, c.isDigit = true)
    (hpart : ∀ c ∈ part, c.isDigit = true) (hne : part ≠ []) (hrest : EndsNumber rest) :
    IsToken first (more ++ '.' :: part) rest .number
      (Lexeme.numberLiteral (first :: more) part) := by
  obtain ⟨hspace, hslash⟩ := isSpace_of_isDigit hfirst
  have hpoint (c : Char) (hc : ('.' :: (part ++ rest)).head? = some c) : c.isDigit = false := by
    cases hc
    rfl
  obtain ⟨htake, hdrop⟩ := takeWhile_append_stop hmore hpoint
  obtain ⟨htake', -⟩ := takeWhile_append_stop hpart hrest.not_digit
  refine ⟨Gap.skip_sign hspace hslash, fun file m => ?_, by decide⟩
  rw [Lexeme.read_digit hfirst, List.append_assoc, List.cons_append]
  unfold Lexeme.readNumber
  dsimp only
  rw [htake, hdrop]
  split
  case h_1 heq =>
    obtain rfl := (List.cons.inj heq).2
    rw [htake', if_neg (by simpa using hne), List.length_append, List.length_cons]
    congr 1
    omega
  case h_2 hother => exact absurd rfl (hother (part ++ rest))

theorem Spells.int {n : Nat} (h : n < 0x80000000) :
    Spells EndsNumber (Value.int (Int32.ofNat n)).literalText.toList
      (IsLiteral .int (.int (Int32.ofNat n))) := by
  have htext : (Value.int (Int32.ofNat n)).literalText.toList = Nat.toDigits 10 n := by
    change (toString (Int32.ofNat n).toInt).toList = _
    rw [Int32.toInt_ofNat_of_lt h]
    exact Nat.toList_repr
  have hliteral : Lexeme.intLiteral (Nat.toDigits 10 n) = some (.int (Int32.ofNat n)) := by
    unfold Lexeme.intLiteral
    rw [Nat.ofDigitChars_ten_toDigits]
    exact if_pos h
  have hdigit (c : Char) (hc : c ∈ Nat.toDigits 10 n) : c.isDigit = true :=
    Nat.isDigit_of_mem_toDigits (by decide) (by decide) hc
  rw [htext]
  cases hdigits : Nat.toDigits 10 n with
  | nil => exact absurd hdigits Nat.toDigits_ne_nil
  | cons first more =>
    rw [hdigits] at hliteral hdigit
    obtain ⟨hfirst, hmore⟩ := List.forall_mem_cons.1 hdigit
    exact .literal fun rest hrest => hliteral ▸ isToken_int hfirst hmore hrest

theorem Spells.number {x : Single} (hfinite : x.isFinite = true)
    (hsign : x.isNegative = false) :
    Spells EndsNumber (Value.number x).literalText.toList (IsLiteral .number (.number x)) := by
  obtain ⟨whole, part, htext, hspelled⟩ := Single.literalText_spelledBy hfinite hsign
  have hliteral : Lexeme.numberLiteral whole part = some (.number x) := by
    unfold Lexeme.numberLiteral
    rw [hspelled.reads]
    exact if_pos hfinite
  rw [htext]
  cases whole with
  | nil => exact absurd rfl hspelled.whole_ne
  | cons first more =>
    obtain ⟨hfirst, hmore⟩ := List.forall_mem_cons.1 hspelled.whole_digits
    exact .literal fun rest hrest => hliteral ▸
      isToken_number hfirst hmore hspelled.part_digits hspelled.part_ne hrest

end Digits

section Strings

namespace Lexeme

variable (file : String) (start m : Mark) (more : Nat) (decoded : List Char)
  (faults : Array Diagnostic)

section Steps

variable {quote : Char}

theorem readString_quote (hbreak : ¬(quote = '\n' ∨ quote = '\t')) (cs : List Char) :
    readString file start quote m more decoded faults (quote :: cs) =
      { kind := .string, more := more + 1, faults := faults
        literal := some (.string (String.ofList decoded.reverse)) } := by
  unfold readString
  rw [if_neg hbreak, if_pos rfl]
  rfl

theorem readString_escape (hquote : '\\' ≠ quote) {e d : Char} (h : unescape? e = some d)
    (cs : List Char) :
    readString file start quote m more decoded faults ('\\' :: e :: cs) =
      readString file start quote ((m.after '\\').after e) (more + 2) (d :: decoded) faults cs := by
  conv => lhs; unfold readString
  rw [if_neg (by decide), if_neg hquote, if_pos rfl]
  dsimp only
  rw [h]

theorem readString_plain {c : Char} (hbreak : ¬(c = '\n' ∨ c = '\t')) (hquote : c ≠ quote)
    (hescape : c ≠ '\\') (cs : List Char) :
    readString file start quote m more decoded faults (c :: cs) =
      readString file start quote (m.after c) (more + 1) (c :: decoded) faults cs := by
  conv => lhs; unfold readString
  rw [if_neg hbreak, if_neg hquote, if_neg hescape]

end Steps

/-- What stands for a character inside a string is read as that character. -/
theorem readString_spelled (c : Char) (cs : List Char) :
    ∃ m', readString file start '"' m more decoded faults (Text.spelled c ++ cs) =
      readString file start '"' m' (more + (Text.spelled c).length) (c :: decoded) faults cs := by
  unfold Text.spelled
  split
  case h_6 hescape hbreak _ htab hquote =>
    exact ⟨_, readString_plain _ _ _ _ _ _ (fun h => h.elim hbreak htab) hquote hescape cs⟩
  all_goals exact ⟨_, readString_escape _ _ _ _ _ _ (by decide) rfl cs⟩

/-- Reading a string undoes its escapes, one character after the other. -/
theorem readString_escaped (s cs : List Char) :
    readString file start '"' m more decoded faults
        (s.flatMap Text.spelled ++ '"' :: cs) =
      { kind := .string, more := more + (s.flatMap Text.spelled).length + 1, faults := faults
        literal := some (.string (String.ofList (decoded.reverse ++ s))) } := by
  induction s generalizing m more decoded with
  | nil => simpa using readString_quote file start m more decoded faults (by decide) cs
  | cons c s ih =>
    obtain ⟨m', hc⟩ := readString_spelled file start m more decoded faults c
      (s.flatMap Text.spelled ++ '"' :: cs)
    rw [List.flatMap_cons, List.append_assoc, hc, ih, List.reverse_cons, List.append_assoc,
      List.length_append, Nat.add_assoc more]
    rfl

end Lexeme

theorem Spells.string {ends : List Char → Prop} (s : String) :
    Spells ends (Value.string s).literalText.toList (IsLiteral .string (.string s)) := by
  have htext : (Value.string s).literalText.toList =
      '"' :: (s.toList.flatMap Text.spelled ++ ['"']) := by
    change (Text.escape s).toList = _
    rw [Text.escape, String.toList_ofList]
    rfl
  rw [htext]
  refine .literal fun rest _ => ⟨Gap.skip_sign (by decide) (by decide), fun file m => ?_,
    by decide⟩
  have hread := Lexeme.readString_escaped file m (m.after '"') 0 [] #[] s.toList rest
  rw [List.reverse_nil, List.nil_append, String.ofList_toList, Nat.zero_add] at hread
  rw [List.append_assoc, List.singleton_append, List.length_append]
  exact hread

end Strings

end StackScript
