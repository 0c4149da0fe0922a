import StackScript.Token.Scan

/-!
What the words of a text can be. A name is spelled with letters and digits and is no
keyword, and each kind of literal stands for values of one type. No literal stands
for a function, and none for a negative value.
-/

namespace StackScript

/-- A text that is read as a name. -/
def IsName (text : String) : Prop :=
  ∃ first more, text = String.ofList (first :: more) ∧ isLetter first = true ∧
    (∀ c ∈ more, (isLetter c || c.isDigit) = true) ∧ TokenKind.keyword? text = none

/-- The values that a literal of this kind can stand for. -/
def TokenKind.Spells : TokenKind → Value → Prop
  | .string, .string _ => True
  | .int, .int i => ∃ n, n < 0x80000000 ∧ i = Int32.ofNat n
  | .number, .number x => x.isFinite = true ∧ x.isNegative = false
  | _, _ => False

theorem TokenKind.Spells.ne_function {kind : TokenKind} {v : Value} (h : kind.Spells v)
    (entry : UInt32) : v ≠ .function entry := by
  rintro rfl
  cases kind <;> exact h

theorem Single.isNegative_ofRatio (num den : Nat) : (ofRatio num den).isNegative = false := by
  have hle (n : Nat) : (UInt32.ofNat (min n 0x7f800000)).toNat ≤ 0x7f800000 := by
    rw [UInt32.toNat_ofNat']
    exact Nat.le_trans (Nat.mod_le _ _) (Nat.min_le_right _ _)
  unfold isNegative ofRatio
  simp only [decide_eq_false_iff_not, Nat.not_le]
  exact Nat.lt_of_le_of_lt (hle _) (by decide)

theorem Single.isNegative_ofDecimal (d : Decimal) : (ofDecimal d).isNegative = false := by
  unfold ofDecimal
  split <;> exact isNegative_ofRatio _ _

namespace Lexeme

/-- The token that has been found is spelled by these characters. -/
structure Proper (l : Lexeme) (chars : List Char) : Prop where
  name : l.kind = .identifier → IsName (String.ofList chars)
  literal : ∀ v, l.literal = some v → l.kind.Spells v

theorem Proper.bare {kind : TokenKind} (h : kind ≠ .identifier) (more : Nat)
    (faults : Array Diagnostic) (chars : List Char) :
    Proper { kind := kind, more := more, faults := faults } chars :=
  ⟨fun hkind => absurd hkind h, fun _ hv => by cases hv⟩

theorem Proper.oneOrTwo {second : Char} {single double : TokenKind} (h : single ≠ .identifier)
    (h' : double ≠ .identifier) (cs chars : List Char) :
    (oneOrTwo second single double cs).Proper chars := by
  unfold Lexeme.oneOrTwo
  split
  · exact .bare h' _ _ _
  · exact .bare h _ _ _

theorem readString_proper (file : String) (start : Mark) (quote : Char) (m : Mark) (more : Nat)
    (decoded : List Char) (faults : Array Diagnostic) (cs chars : List Char) :
    (readString file start quote m more decoded faults cs).Proper chars := by
  have hfinish (more : Nat) (decoded : List Char) (faults : Array Diagnostic) :
      (readString.finish more decoded faults).Proper chars := by
    refine ⟨fun hkind => (by cases hkind), ?_⟩
    rintro v ⟨⟩
    trivial
  fun_induction readString file start quote m more decoded faults cs with
  | case5 | case6 | case7 => assumption
  | _ => exact hfinish _ _ _

theorem readNumber_proper (first : Char) (cs chars : List Char) :
    (readNumber first cs).Proper chars := by
  have hint (digits : List Char) (more : Nat) :
      Proper { kind := .int, more := more, literal := intLiteral digits } chars := by
    refine ⟨fun hkind => (by cases hkind), fun v hv => ?_⟩
    unfold intLiteral at hv
    dsimp only at hv
    split at hv
    · next hlt =>
      cases hv
      exact ⟨_, hlt, rfl⟩
    · cases hv
  unfold readNumber
  dsimp only
  split
  · split
    · exact hint _ _
    · refine ⟨fun hkind => (by cases hkind), fun v hv => ?_⟩
      unfold numberLiteral at hv
      dsimp only at hv
      split at hv
      · next hfinite =>
        cases hv
        exact ⟨hfinite, Single.isNegative_ofDecimal _⟩
      · cases hv
  · exact hint _ _

theorem readWord_proper {first : Char} (h : isLetter first = true) (cs : List Char) :
    (readWord first cs).Proper (first :: cs.take (readWord first cs).more) := by
  have htake : cs.take (readWord first cs).more =
      cs.takeWhile fun c => isLetter c || c.isDigit :=
    (List.prefix_iff_eq_take.1 (List.takeWhile_prefix _)).symm
  rw [htake]
  refine ⟨fun hkind => ⟨first, _, rfl, h, List.all_eq_true.1 List.all_takeWhile, ?_⟩,
    fun _ hv => by cases hv⟩
  unfold readWord at hkind
  dsimp only at hkind
  cases hword : TokenKind.keyword? (String.ofList (first ::
      cs.takeWhile fun c => isLetter c || c.isDigit)) with
  | none => rfl
  | some kind =>
    rw [hword, Option.getD_some] at hkind
    subst hkind
    exact absurd (List.mem_of_find?_eq_some hword) (by decide)

theorem read_proper (file : String) (m : Mark) (first : Char) (cs : List Char) :
    (read file m first cs).Proper (first :: cs.take (read file m first cs).more) := by
  unfold read
  split
  all_goals first
    | exact .bare (by decide) _ _ _
    | exact .oneOrTwo (by decide) (by decide) _ _
    | exact readString_proper _ _ _ _ _ _ _ _ _
    | skip
  split
  · exact readNumber_proper _ _ _
  · split
    · exact readWord_proper ‹_› _
    · exact .bare (by decide) _ _ _

end Lexeme

/-- The token can stand in a text. -/
structure Token.Proper (t : Token) : Prop where
  name : t.kind = .identifier → IsName t.lexeme
  literal : ∀ v, t.literal = some v → t.kind.Spells v

theorem Cursor.nextToken_proper (c : Cursor) : c.nextToken.1.token.Proper := by
  unfold nextToken
  dsimp only
  split
  · exact ⟨fun hkind => (by cases hkind), fun _ hv => by cases hv⟩
  · next first rest _ =>
    obtain ⟨hname, hliteral⟩ := Lexeme.read_proper c.file (Gap.space.skip c.mark c.rest).2.1
      first rest
    exact ⟨hname, hliteral⟩

namespace TokenStream

theorem scan_proper (before : Array Scanned) (c : Cursor)
    (h : ∀ t ∈ before, t.token.Proper) : ∀ t ∈ (scan before c).ahead, t.token.Proper := by
  fun_induction scan before c with
  | case1 before c next _ => simpa using h
  | case2 before c next _ ih =>
    refine ih fun t ht => ?_
    rcases Array.mem_push.1 ht with hmem | rfl
    · exact h t hmem
    · exact c.nextToken_proper

theorem ofText_proper (file text : String) :
    ∀ t ∈ (ofText file text).ahead, t.token.Proper :=
  scan_proper #[] (.ofText file text) (by simp)

end TokenStream

end StackScript
