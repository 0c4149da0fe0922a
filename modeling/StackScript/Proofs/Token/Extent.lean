import StackScript.Proofs.Token.Literals
import StackScript.Proofs.Token.Trivia

/-!
How far a token goes. A token with nothing wrong is found from its own characters and from
what stands behind them, as far as that goes before white space. So the token stays the same
if the text breaks off there: at its end, or with white space and any other text. Main
statement: a cursor in front of a token with nothing wrong finds it again in front of every
such rest.
-/

namespace StackScript

/-- The first text goes on as the second one does, up to white space or to its own end. -/
inductive BreaksOff : List Char → List Char → Prop
  | ended (cs : List Char) : BreaksOff [] cs
  | space {c : Char} (hspace : Gap.isSpace c = true) (rest cs : List Char) :
      BreaksOff (c :: rest) cs
  | same {rest cs : List Char} (c : Char) (h : BreaksOff rest cs) :
      BreaksOff (c :: rest) (c :: cs)

namespace BreaksOff

variable {c : Char} {rest cs : List Char}

/-- A text with white space and anything else behind it. -/
theorem append_space (hspace : Gap.isSpace c = true) (cs rest : List Char) :
    BreaksOff (cs ++ c :: rest) cs := by
  induction cs with
  | nil => exact .space hspace rest []
  | cons c cs ih => exact .same c ih

theorem append_left (h : BreaksOff rest cs) (front : List Char) :
    BreaksOff (front ++ rest) (front ++ cs) := by
  induction front with
  | nil => exact h
  | cons c front ih => exact .same c ih

/-- What breaks off at once breaks off from any text. -/
theorem of_nil (h : BreaksOff rest []) (cs : List Char) : BreaksOff rest cs := by
  cases h with
  | ended => exact .ended cs
  | space hspace => exact .space hspace _ cs

theorem head (h : BreaksOff (c :: rest) cs) :
    Gap.isSpace c = true ∨ ∃ cs', cs = c :: cs' ∧ BreaksOff rest cs' := by
  cases h with
  | space hspace => exact Or.inl hspace
  | same _ h => exact Or.inr ⟨_, rfl, h⟩

theorem head?_ne (h : BreaksOff rest cs) (hspace : Gap.isSpace c = false)
    (hcs : cs.head? ≠ some c) : rest.head? ≠ some c := by
  intro hrest
  obtain ⟨rest', rfl⟩ := List.head?_eq_some_iff.1 hrest
  obtain hc | ⟨cs', rfl, -⟩ := h.head
  · rw [hspace] at hc
    contradiction
  · exact hcs rfl

/-- Characters of a class without white space end in front of both texts. -/
theorem stops {p : Char → Bool} (h : BreaksOff rest cs)
    (hspace : ∀ c, Gap.isSpace c = true → p c = false)
    (hcs : ∀ c, cs.head? = some c → p c = false) (c : Char) (hc : rest.head? = some c) :
    p c = false := by
  obtain ⟨rest', rfl⟩ := List.head?_eq_some_iff.1 hc
  obtain hc | ⟨cs', rfl, -⟩ := h.head
  · exact hspace c hc
  · exact hcs c rfl

end BreaksOff

theorem isSpace_iff {c : Char} :
    Gap.isSpace c = true ↔ c = ' ' ∨ c = '\t' ∨ c = '\r' ∨ c = '\n' := by
  simp [Gap.isSpace, or_assoc]

theorem isDigit_of_isSpace (c : Char) (h : Gap.isSpace c = true) : c.isDigit = false := by
  rcases isSpace_iff.1 h with rfl | rfl | rfl | rfl <;> decide

theorem isWord_of_isSpace (c : Char) (h : Gap.isSpace c = true) :
    (isLetter c || c.isDigit) = false := by
  rcases isSpace_iff.1 h with rfl | rfl | rfl | rfl <;> decide

namespace Lexeme

/-- What is found from `first` in front of `more ++ after` has the characters `more`, and it
is found again wherever the text behind them breaks off. -/
structure Stands (first : Char) (more after : List Char) (l : Lexeme) : Prop where
  more_eq : l.more = more.length
  read_eq : ∀ file m rest, BreaksOff rest after → read file m first (more ++ rest) = l

/-- The characters behind `first` can be taken apart so that what is found stands. -/
def StandsIn (first : Char) (cs : List Char) (l : Lexeme) : Prop :=
  ∃ more after, cs = more ++ after ∧ Stands first more after l

section Signs

variable {first second : Char} {single double : TokenKind}

theorem standsIn_sign (h : ∀ file m cs, read file m first cs = { kind := single })
    (cs : List Char) : StandsIn first cs { kind := single } :=
  ⟨[], cs, rfl, rfl, fun file m rest _ => h file m rest⟩

theorem standsIn_oneOrTwo
    (h : ∀ file m cs, read file m first cs = oneOrTwo second single double cs)
    (hspace : Gap.isSpace second = false) (cs : List Char) :
    StandsIn first cs (oneOrTwo second single double cs) := by
  by_cases hcs : cs.head? = some second
  · obtain ⟨after, rfl⟩ := List.head?_eq_some_iff.1 hcs
    have htwo (rest : List Char) : oneOrTwo second single double (second :: rest) =
        { kind := double, more := 1 } := if_pos rfl
    rw [htwo]
    refine ⟨[second], after, rfl, rfl, ?_⟩
    intro file m rest _
    rw [h]
    exact htwo rest
  · have hone {rest : List Char} (hrest : rest.head? ≠ some second) :
        oneOrTwo second single double rest = { kind := single } := if_neg hrest
    rw [hone hcs]
    refine ⟨[], cs, rfl, rfl, ?_⟩
    intro file m rest hrest
    rw [h]
    exact hone (hrest.head?_ne hspace hcs)

end Signs

section Words

theorem mem_takeWhile {p : Char → Bool} {cs : List Char} {c : Char} (h : c ∈ cs.takeWhile p) :
    p c = true := List.all_eq_true.1 List.all_takeWhile c h

theorem dropWhile_stops (p : Char → Bool) (cs : List Char) (c : Char)
    (h : (cs.dropWhile p).head? = some c) : p c = false := by
  have hstop := List.head?_dropWhile_not p cs
  rwa [h] at hstop

theorem readWord_standsIn {first : Char} (hfirst : isLetter first = true) (cs : List Char) :
    StandsIn first cs (readWord first cs) := by
  let p : Char → Bool := fun c => isLetter c || c.isDigit
  refine ⟨cs.takeWhile p, cs.dropWhile p, List.takeWhile_append_dropWhile.symm, rfl, ?_⟩
  intro file m rest hrest
  have hstop := hrest.stops isWord_of_isSpace (dropWhile_stops p cs)
  have hmore : ∀ c ∈ cs.takeWhile p, p c = true := fun c hc => mem_takeWhile hc
  obtain ⟨htake, -⟩ := takeWhile_append_stop hmore hstop
  rw [read_letter hfirst]
  unfold readWord
  dsimp only
  rw [htake]

end Words

section Numbers

variable {first : Char} {cs : List Char}

theorem readNumber_int {more rest : List Char} (hmore : ∀ c ∈ more, c.isDigit = true)
    (hstop : ∀ c, rest.head? = some c → c.isDigit = false)
    (hpoint : ∀ part, rest = '.' :: part → part.takeWhile Char.isDigit = []) :
    readNumber first (more ++ rest) =
      { kind := .int, more := more.length, literal := intLiteral (first :: more) } := by
  obtain ⟨htake, hdrop⟩ := takeWhile_append_stop hmore hstop
  unfold readNumber
  dsimp only
  rw [htake, hdrop]
  split
  · rw [hpoint _ rfl]
    rfl
  · rfl

theorem readNumber_number {more part rest : List Char} (hmore : ∀ c ∈ more, c.isDigit = true)
    (hpart : ∀ c ∈ part, c.isDigit = true) (hne : part ≠ [])
    (hstop : ∀ c, rest.head? = some c → c.isDigit = false) :
    readNumber first (more ++ '.' :: (part ++ rest)) =
      { kind := .number, more := more.length + 1 + part.length
        literal := numberLiteral (first :: more) part } := by
  have hpoint (c : Char) (hc : ('.' :: (part ++ rest)).head? = some c) : c.isDigit = false := by
    cases hc
    rfl
  obtain ⟨htake, hdrop⟩ := takeWhile_append_stop hmore hpoint
  obtain ⟨hfraction, -⟩ := takeWhile_append_stop hpart hstop
  unfold readNumber
  dsimp only
  rw [htake, hdrop]
  split
  · rename_i heq
    obtain rfl := (List.cons.inj heq).2
    rw [hfraction, if_neg (by simpa using hne)]
  · rename_i hother
    exact absurd rfl (hother (part ++ rest))

theorem takeWhile_eq_nil {p : Char → Bool} {cs : List Char}
    (h : ∀ c, cs.head? = some c → p c = false) : cs.takeWhile p = [] := by
  cases cs with
  | nil => rfl
  | cons c cs => exact List.takeWhile_cons_of_neg (by simp [h c rfl])

theorem standsIn_number (hfirst : first.isDigit = true) {more part after : List Char}
    (hmore : ∀ c ∈ more, c.isDigit = true) (hpart : ∀ c ∈ part, c.isDigit = true)
    (hne : part ≠ []) (hstop : ∀ c, after.head? = some c → c.isDigit = false) :
    StandsIn first (more ++ '.' :: (part ++ after))
      (readNumber first (more ++ '.' :: (part ++ after))) := by
  rw [readNumber_number hmore hpart hne hstop]
  refine ⟨more ++ '.' :: part, after, by simp, ?_, ?_⟩
  · simp only [List.length_append, List.length_cons]
    omega
  · intro file m rest hrest
    rw [read_digit hfirst, List.append_assoc, List.cons_append]
    exact readNumber_number hmore hpart hne (hrest.stops isDigit_of_isSpace hstop)

/-- Digits stand without what is behind them, unless that is a point with digits. -/
theorem standsIn_int (hfirst : first.isDigit = true) {more after : List Char}
    (hmore : ∀ c ∈ more, c.isDigit = true)
    (hstop : ∀ c, after.head? = some c → c.isDigit = false)
    (hpoint : ∀ tail, after = '.' :: tail → ∀ c, tail.head? = some c → c.isDigit = false) :
    StandsIn first (more ++ after) (readNumber first (more ++ after)) := by
  rw [readNumber_int hmore hstop fun tail htail => takeWhile_eq_nil (hpoint tail htail)]
  refine ⟨more, after, rfl, rfl, ?_⟩
  intro file m rest hrest
  rw [read_digit hfirst]
  refine readNumber_int hmore (hrest.stops isDigit_of_isSpace hstop) ?_
  -- a point that breaks nothing off is the one that stood there before
  rintro tail rfl
  obtain hspace | ⟨after', rfl, htail⟩ := hrest.head
  · contradiction
  · exact takeWhile_eq_nil (htail.stops isDigit_of_isSpace (hpoint after' rfl))

/-- What follows the first digit of a number: digits, and a fraction if one follows the point. -/
inductive Digits : List Char → Prop
  | whole {more after : List Char} (hmore : ∀ c ∈ more, c.isDigit = true)
      (hstop : ∀ c, after.head? = some c → c.isDigit = false)
      (hpoint : ∀ tail, after = '.' :: tail → ∀ c, tail.head? = some c → c.isDigit = false) :
      Digits (more ++ after)
  | fraction {more part after : List Char} (hmore : ∀ c ∈ more, c.isDigit = true)
      (hpart : ∀ c ∈ part, c.isDigit = true) (hne : part ≠ [])
      (hstop : ∀ c, after.head? = some c → c.isDigit = false) :
      Digits (more ++ '.' :: (part ++ after))

theorem digits (cs : List Char) : Digits cs := by
  have hcs : cs = cs.takeWhile Char.isDigit ++ cs.dropWhile Char.isDigit :=
    List.takeWhile_append_dropWhile.symm
  have hmore (c : Char) (hc : c ∈ cs.takeWhile Char.isDigit) : c.isDigit = true :=
    mem_takeWhile hc
  have hstop := dropWhile_stops Char.isDigit cs
  generalize cs.takeWhile Char.isDigit = more at hcs hmore
  generalize cs.dropWhile Char.isDigit = after at hcs hstop
  subst hcs
  by_cases hfraction : ∃ c tail, c.isDigit = true ∧ after = '.' :: c :: tail
  · obtain ⟨c, tail, hc, rfl⟩ := hfraction
    have htail : c :: tail = (c :: tail).takeWhile Char.isDigit ++
        (c :: tail).dropWhile Char.isDigit := List.takeWhile_append_dropWhile.symm
    have hne : (c :: tail).takeWhile Char.isDigit ≠ [] := by
      rw [List.takeWhile_cons_of_pos hc]
      exact List.cons_ne_nil _ _
    rw [htail]
    exact .fraction hmore (fun d hd => mem_takeWhile hd) hne
      (dropWhile_stops Char.isDigit (c :: tail))
  · refine .whole hmore hstop fun tail htail c hc => ?_
    obtain ⟨part, rfl⟩ := List.head?_eq_some_iff.1 hc
    exact Bool.eq_false_iff.2 fun hdigit => hfraction ⟨c, part, hdigit, htail⟩

theorem readNumber_standsIn (hfirst : first.isDigit = true) (cs : List Char) :
    StandsIn first cs (readNumber first cs) := by
  cases digits cs with
  | whole hmore hstop hpoint => exact standsIn_int hfirst hmore hstop hpoint
  | fraction hmore hpart hne hstop => exact standsIn_number hfirst hmore hpart hne hstop

end Numbers

section Strings

theorem size_le_readString (file : String) (start : Mark) (quote : Char) (m : Mark) (more : Nat)
    (decoded : List Char) (faults : Array Diagnostic) (cs : List Char) :
    faults.size ≤ (readString file start quote m more decoded faults cs).faults.size := by
  fun_induction readString file start quote m more decoded faults cs
  case case1 | case2 | case4 => simp [readString.finish]
  case case3 => simp [readString.finish]
  case case5 ih => exact ih
  case case6 ih =>
    refine Nat.le_trans ?_ ih
    simp
  case case7 ih => exact ih

/-- A closed string with no wrong escape is found again, whatever stands behind it. -/
theorem readString_closed (file : String) (start : Mark) (quote : Char) (m : Mark) (more : Nat)
    (decoded : List Char) (faults : Array Diagnostic) (cs : List Char)
    (hquiet : (readString file start quote m more decoded faults cs).faults = #[]) :
    ∃ inside after, cs = inside ++ after ∧
      (readString file start quote m more decoded faults cs).more = more + inside.length ∧
      ∀ file' start' m' rest, readString file' start' quote m' more decoded #[] (inside ++ rest) =
        readString file start quote m more decoded faults cs := by
  have hpushed {faults : Array Diagnostic} {d : Diagnostic} (h : faults.push d = #[]) : False := by
    simpa using congrArg Array.size h
  fun_induction readString file start quote m more decoded faults cs
  case case1 | case2 | case4 => exact (hpushed hquiet).elim
  case case3 m more decoded faults cs hbreak =>
    refine ⟨[quote], cs, rfl, rfl, ?_⟩
    intro file' start' m' rest
    have hfaults : faults = #[] := hquiet
    rw [List.singleton_append, readString_quote _ _ _ _ _ _ hbreak, hfaults]
    rfl
  case case5 m more decoded faults e cs d hd hbreak hquote behind ih =>
    obtain ⟨inside, after, rfl, hmore, hread⟩ := ih hquiet
    refine ⟨'\\' :: e :: inside, after, rfl, ?_, ?_⟩
    · rw [hmore]
      simp only [List.length_cons]
      omega
    · intro file' start' m' rest
      rw [List.cons_append, List.cons_append, readString_escape _ _ _ _ _ _ hquote hd]
      exact hread _ _ _ _
  case case6 m more decoded faults e cs hd fault hbreak hquote behind ih =>
    -- what has been told about an escape stays told
    have hsize := size_le_readString file start quote behind (more + 2) decoded
      (faults.push fault) cs
    rw [hquiet] at hsize
    simp at hsize
  case case7 m more decoded faults c cs hbreak hquote hescape ih =>
    obtain ⟨inside, after, rfl, hmore, hread⟩ := ih hquiet
    refine ⟨c :: inside, after, rfl, ?_, ?_⟩
    · rw [hmore]
      simp only [List.length_cons]
      omega
    · intro file' start' m' rest
      rw [List.cons_append, readString_plain _ _ _ _ _ _ hbreak hquote hescape]
      exact hread _ _ _ _

theorem readString_standsIn {quote : Char}
    (h : ∀ file m cs, read file m quote cs =
      readString file m quote (m.after quote) 0 [] #[] cs) {file : String} {m : Mark}
    {cs : List Char}
    (hquiet : (readString file m quote (m.after quote) 0 [] #[] cs).faults = #[]) :
    StandsIn quote cs (readString file m quote (m.after quote) 0 [] #[] cs) := by
  obtain ⟨inside, after, hcs, hmore, hread⟩ := readString_closed _ _ _ _ _ _ _ _ hquiet
  refine ⟨inside, after, hcs, ?_, ?_⟩
  · rw [hmore, Nat.zero_add]
  · intro file' m' rest _
    rw [h]
    exact hread _ _ _ _

end Strings

/-- A token with nothing wrong stands. -/
theorem read_standsIn {file : String} {m : Mark} {first : Char} {cs : List Char}
    (hquiet : (read file m first cs).faults = #[]) : StandsIn first cs (read file m first cs) := by
  by_cases hdigit : first.isDigit = true
  · rw [read_digit hdigit]
    exact readNumber_standsIn hdigit cs
  by_cases hletter : isLetter first = true
  · rw [read_letter hletter]
    exact readWord_standsIn hletter cs
  generalize hl : read file m first cs = l at hquiet ⊢
  unfold read at hl
  split at hl <;> subst hl
  case h_23 | h_24 => exact readString_standsIn (fun _ _ _ => rfl) hquiet
  case h_25 =>
    rw [if_neg hdigit, if_neg hletter] at hquiet
    simp at hquiet
  all_goals first
    | exact standsIn_sign (fun _ _ _ => rfl) cs
    | exact standsIn_oneOrTwo (fun _ _ _ => rfl) (by decide) cs

end Lexeme

theorem StartsToken.breaksOff {c : Char} {rest cs : List Char} (h : StartsToken (c :: cs))
    (hrest : BreaksOff rest cs) (m : Mark) :
    Gap.space.skip m (c :: rest) = (none, m, c :: rest) := by
  obtain ⟨hspace, hslash⟩ := h c rfl
  have hc : Gap.isSpace c = false :=
    Bool.eq_false_iff.2 fun htrue => hspace (Gap.mem_space_iff.2 htrue)
  refine Gap.skip_stop hc (fun heq => ?_) m
  obtain ⟨hline, hblock⟩ := hslash heq
  exact ⟨hrest.head?_ne (by decide) hline, hrest.head?_ne (by decide) hblock⟩

/-- A token with nothing wrong, found by a cursor, is the token of its characters in front of
every rest that breaks off. -/
theorem Cursor.exists_isToken {c : Cursor} (hfaults : c.nextToken.1.faults = #[])
    (hkind : c.nextToken.1.token.kind ≠ .endOfStream) :
    ∃ gap first more after, c.rest = gap ++ first :: (more ++ after) ∧
      Trivia gap (first :: (more ++ after)) ∧ c.nextToken.2.rest = after ∧
      c.nextToken.1.token.lexeme = String.ofList (first :: more) ∧
      ∀ rest, BreaksOff rest after →
        IsToken first more rest c.nextToken.1.token.kind c.nextToken.1.token.literal := by
  have hskipped := Gap.skipped_space c.mark c.rest
  revert hfaults hkind
  unfold nextToken
  generalize hrest : c.rest = ahead at hskipped
  generalize Gap.space.skip c.mark ahead = result at hskipped
  cases hskipped with
  | unclosed =>
    intro hfaults
    simp at hfaults
  | @whole gap ahead hgap hstarts =>
    cases ahead with
    | nil =>
      intro _ hkind
      exact absurd rfl hkind
    | cons first cs =>
      intro hfaults hkind
      dsimp only at hfaults hkind ⊢
      rw [Array.empty_append] at hfaults
      obtain ⟨more, after, rfl, hstands⟩ := Lexeme.read_standsIn hfaults
      generalize Lexeme.read c.file (gap.foldl Mark.after c.mark) first (more ++ after) = found
        at hfaults hkind hstands ⊢
      rw [hstands.more_eq, List.take_left, List.drop_left]
      refine ⟨gap, first, more, after, rfl, hgap, rfl, rfl, ?_⟩
      intro rest hbreaks
      refine ⟨hstarts.breaksOff (hbreaks.append_left more), ?_, hkind⟩
      intro file m
      rw [hstands.read_eq file m rest hbreaks, ← hstands.more_eq, ← hfaults]

end StackScript
