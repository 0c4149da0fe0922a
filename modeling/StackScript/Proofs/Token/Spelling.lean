import StackScript.Proofs.Token.Words

/-!
Which tokens are read from a piece of text, in front of any text that cannot go on with
it. Pieces follow one another, and what is read of them is what is read of each. White
space in front of a token changes its place and nothing else.
-/

namespace StackScript

namespace Gap

theorem skip_space (m : Mark) {gap : List Char} (h : ∀ c ∈ gap, isSpace c = true)
    (cs : List Char) : ∃ m', space.skip m (gap ++ cs) = space.skip m' cs := by
  induction gap generalizing m with
  | nil => exact ⟨m, rfl⟩
  | cons c gap ih =>
    obtain ⟨hc, hgap⟩ := List.forall_mem_cons.1 h
    obtain ⟨m', hm'⟩ := ih (m.after c) hgap
    refine ⟨m', ?_⟩
    rw [← hm', List.cons_append]
    have hslash : c ≠ '/' := by
      rintro rfl
      contradiction
    cases gap ++ cs <;> simp [skip, hslash, hc]

/-- A gap ends in front of what is no white space and opens no comment. -/
theorem skip_stop {c : Char} {cs : List Char} (hspace : isSpace c = false)
    (hslash : c = '/' → cs.head? ≠ some '/' ∧ cs.head? ≠ some '*') (m : Mark) :
    space.skip m (c :: cs) = (none, m, c :: cs) := by
  unfold skip
  dsimp only
  split
  · exact absurd rfl (hslash rfl).1
  · exact absurd rfl (hslash rfl).2
  · rw [if_neg (by simp [hspace])]

theorem skip_sign {c : Char} {cs : List Char} (hspace : isSpace c = false) (hslash : c ≠ '/')
    (m : Mark) : space.skip m (c :: cs) = (none, m, c :: cs) :=
  skip_stop hspace (fun h => absurd h hslash) m

theorem skip_end (m : Mark) {gap : List Char} (h : ∀ c ∈ gap, isSpace c = true) :
    ∃ m', space.skip m gap = (none, m', []) := by
  obtain ⟨m', hm'⟩ := skip_space m h []
  rw [List.append_nil] at hm'
  exact ⟨m', hm'⟩

end Gap

namespace Cursor

/-- White space and then this text lie ahead. -/
def Ahead (c : Cursor) (cs : List Char) : Prop :=
  ∃ gap, (∀ x ∈ gap, Gap.isSpace x = true) ∧ c.rest = gap ++ cs

theorem ahead_rest (c : Cursor) : c.Ahead c.rest := ⟨[], by simp, rfl⟩

theorem Ahead.space {c : Cursor} {gap cs : List Char} (h : c.Ahead (gap ++ cs))
    (hgap : ∀ x ∈ gap, Gap.isSpace x = true) : c.Ahead cs := by
  obtain ⟨before, hbefore, hrest⟩ := h
  refine ⟨before ++ gap, ?_, by rw [hrest, List.append_assoc]⟩
  intro x hx
  rcases List.mem_append.1 hx with hx | hx
  · exact hbefore x hx
  · exact hgap x hx

/-- From one cursor to a later one there are these tokens and nothing is wrong. -/
inductive Reads : Cursor → List Token → Cursor → Prop
  | none (c : Cursor) : Reads c [] c
  | one {c c' : Cursor} {ts : List Token} (hfaults : c.nextToken.1.faults = #[])
      (hkind : c.nextToken.1.token.kind ≠ .endOfStream) (h : Reads c.nextToken.2 ts c') :
      Reads c (c.nextToken.1.token :: ts) c'

theorem Reads.append {c c' c'' : Cursor} {ts us : List Token} (h : c.Reads ts c')
    (h' : c'.Reads us c'') : c.Reads (ts ++ us) c'' := by
  induction h with
  | none => exact h'
  | one hfaults hkind _ ih => exact .one hfaults hkind (ih h')

end Cursor

/-- The token that `first :: more` is in front of `rest`. -/
structure IsToken (first : Char) (more rest : List Char) (kind : TokenKind)
    (literal : Option Value) : Prop where
  gap : ∀ m, Gap.space.skip m (first :: (more ++ rest)) = (none, m, first :: (more ++ rest))
  read : ∀ file m, Lexeme.read file m first (more ++ rest) =
    { kind := kind, more := more.length, literal := literal }
  kind_ne : kind ≠ .endOfStream

theorem IsToken.nextToken {first : Char} {more rest : List Char} {kind : TokenKind}
    {literal : Option Value} (h : IsToken first more rest kind literal) {c : Cursor}
    (hc : c.Ahead (first :: (more ++ rest))) :
    ∃ position, c.nextToken.1 =
        ⟨⟨kind, String.ofList (first :: more), literal, position⟩, #[]⟩ ∧
      c.nextToken.2.rest = rest := by
  obtain ⟨gap, hgap, hrest⟩ := hc
  obtain ⟨m, hm⟩ := Gap.skip_space c.mark hgap (first :: (more ++ rest))
  rw [h.gap m] at hm
  refine ⟨m.position c.file, ?_, ?_⟩
  · unfold Cursor.nextToken
    rw [hrest, hm]
    simp [h.read]
  · unfold Cursor.nextToken
    rw [hrest, hm]
    simp [h.read]

/-- In front of what `ends` it, the text `cs` is read as tokens that `P` holds of. -/
def Spells (ends : List Char → Prop) (cs : List Char) (P : List Token → Prop) : Prop :=
  ∀ (c : Cursor) (rest : List Char), ends rest → c.Ahead (cs ++ rest) →
    ∃ ts c', c.Reads ts c' ∧ c'.Ahead rest ∧ P ts

/-- Any text can follow. -/
def Anything (_ : List Char) : Prop := True

namespace Spells

variable {ends ends' : List Char → Prop} {cs ds : List Char} {P Q : List Token → Prop}

theorem mono (h : Spells ends cs P) (hPQ : ∀ ts, P ts → Q ts) : Spells ends cs Q := by
  intro c rest hends hc
  obtain ⟨ts, c', hreads, hahead, hP⟩ := h c rest hends hc
  exact ⟨ts, c', hreads, hahead, hPQ ts hP⟩

/-- What ends the text may be told in more detail. -/
theorem within (h : Spells ends cs P) (hends : ∀ rest, ends' rest → ends rest) :
    Spells ends' cs P := fun c rest hrest => h c rest (hends rest hrest)

theorem append (h : Spells ends cs P) (h' : Spells ends' ds Q)
    (hends : ∀ rest, ends' rest → ends (ds ++ rest)) :
    Spells ends' (cs ++ ds) fun ts => ∃ us vs, ts = us ++ vs ∧ P us ∧ Q vs := by
  intro c rest hrest hc
  rw [List.append_assoc] at hc
  obtain ⟨us, c', hreads, hahead, hP⟩ := h c _ (hends rest hrest) hc
  obtain ⟨vs, c'', hreads', hahead', hQ⟩ := h' c' rest hrest hahead
  exact ⟨us ++ vs, c'', hreads.append hreads', hahead', us, vs, rfl, hP, hQ⟩

/-- White space in front. -/
theorem space {gap : List Char} (hgap : ∀ x ∈ gap, Gap.isSpace x = true)
    (h : Spells ends cs P) : Spells ends (gap ++ cs) P := by
  intro c rest hends hc
  rw [List.append_assoc] at hc
  exact h c rest hends (hc.space hgap)

theorem nothing (hP : P []) : Spells ends [] P := fun c _ _ hc => ⟨[], c, .none c, hc, hP⟩

theorem token {first : Char} {more : List Char} {kind : TokenKind} {literal : Option Value}
    (h : ∀ rest, ends rest → IsToken first more rest kind literal) :
    Spells ends (first :: more) fun ts =>
      ∃ position, ts = [⟨kind, String.ofList (first :: more), literal, position⟩] := by
  intro c rest hends hc
  obtain ⟨position, htoken, hrest⟩ := (h rest hends).nextToken hc
  have hreads := Cursor.Reads.none c.nextToken.2
  refine ⟨_, _, .one ?_ ?_ hreads, hrest ▸ c.nextToken.2.ahead_rest, position, ?_⟩
  · rw [htoken]
  · rw [htoken]
    exact (h rest hends).kind_ne
  · rw [htoken]

/-- A text does not begin as a token does that is not the first one read. -/
theorem head?_ne (h : Spells ends cs P) {x : Char} {rest : List Char} (hends : ends rest)
    (hx : ∀ c : Cursor, c.rest.head? = some x → ∀ ts, P (c.nextToken.1.token :: ts) → False)
    (hnil : ¬P []) : (cs ++ rest).head? ≠ some x := by
  intro hhead
  obtain ⟨ts, c', hreads, -, hP⟩ :=
    h ⟨"", [], {}, cs ++ rest⟩ rest hends (Cursor.ahead_rest _)
  cases hreads with
  | none => exact hnil hP
  | one _ _ _ => exact hx _ hhead _ hP

end Spells

/-- The tokens are one of this kind. -/
def IsOne (kind : TokenKind) (ts : List Token) : Prop := ∃ t, ts = [t] ∧ t.kind = kind

theorem Spells.one {ends : List Char → Prop} {first : Char} {more : List Char}
    {kind : TokenKind} {literal : Option Value}
    (h : ∀ rest, ends rest → IsToken first more rest kind literal) :
    Spells ends (first :: more) (IsOne kind) :=
  (Spells.token h).mono fun _ ⟨_, hts⟩ => ⟨_, hts, rfl⟩

section Signs

/-- The signs of one character that no second one goes on with. -/
def signs : List (Char × TokenKind) :=
  [('{', .openBrace), ('}', .closeBrace), ('(', .openParen), (')', .closeParen),
   ('[', .openBracket), (']', .closeBracket), ('+', .plus), ('-', .minus), ('*', .star),
   ('%', .percent), (',', .comma), (':', .colon), (';', .semicolon), ('~', .bitNot)]

theorem Spells.sign {ends : List Char → Prop} {first : Char} {kind : TokenKind}
    (h : (first, kind) ∈ signs) : Spells ends [first] (IsOne kind) := by
  have htoken (rest : List Char) : IsToken first [] rest kind none := by
    simp only [signs, List.mem_cons, Prod.mk.injEq, List.not_mem_nil, or_false] at h
    rcases h with ⟨rfl, rfl⟩ | ⟨rfl, rfl⟩ | ⟨rfl, rfl⟩ | ⟨rfl, rfl⟩ | ⟨rfl, rfl⟩ | ⟨rfl, rfl⟩ |
      ⟨rfl, rfl⟩ | ⟨rfl, rfl⟩ | ⟨rfl, rfl⟩ | ⟨rfl, rfl⟩ | ⟨rfl, rfl⟩ | ⟨rfl, rfl⟩ | ⟨rfl, rfl⟩ |
      ⟨rfl, rfl⟩
    all_goals exact ⟨Gap.skip_sign (by decide) (by decide), fun _ _ => rfl, by decide⟩
  exact .one fun rest _ => htoken rest

/-- The signs of one character that a second one can go on with. -/
def openSigns : List (Char × Char × TokenKind) :=
  [('.', '.', .dot), ('=', '=', .assign), ('!', '=', .not), ('<', '=', .less),
   ('>', '=', .greater), ('&', '&', .bitAnd), ('|', '|', .bitOr)]

theorem Spells.openSign {first second : Char} {kind : TokenKind}
    (h : (first, second, kind) ∈ openSigns) :
    Spells (fun rest => rest.head? ≠ some second) [first] (IsOne kind) := by
  have htoken (rest : List Char) (hrest : rest.head? ≠ some second) :
      IsToken first [] rest kind none := by
    have hsingle (double : TokenKind) :
        Lexeme.oneOrTwo second kind double rest = { kind := kind } := if_neg hrest
    simp only [openSigns, List.mem_cons, Prod.mk.injEq, List.not_mem_nil, or_false] at h
    rcases h with ⟨rfl, rfl, rfl⟩ | ⟨rfl, rfl, rfl⟩ | ⟨rfl, rfl, rfl⟩ | ⟨rfl, rfl, rfl⟩ |
      ⟨rfl, rfl, rfl⟩ | ⟨rfl, rfl, rfl⟩ | ⟨rfl, rfl, rfl⟩
    all_goals exact ⟨Gap.skip_sign (by decide) (by decide), fun _ _ => hsingle _, by decide⟩
  exact .one htoken

/-- The signs of two characters. -/
def doubleSigns : List (Char × Char × TokenKind) :=
  [('=', '=', .equal), ('!', '=', .notEqual), ('<', '=', .lessEqual),
   ('>', '=', .greaterEqual), ('&', '&', .and), ('|', '|', .or)]

theorem Spells.doubleSign {ends : List Char → Prop} {first second : Char} {kind : TokenKind}
    (h : (first, second, kind) ∈ doubleSigns) : Spells ends [first, second] (IsOne kind) := by
  have htoken (rest : List Char) : IsToken first [second] rest kind none := by
    simp only [doubleSigns, List.mem_cons, Prod.mk.injEq, List.not_mem_nil, or_false] at h
    rcases h with ⟨rfl, rfl, rfl⟩ | ⟨rfl, rfl, rfl⟩ | ⟨rfl, rfl, rfl⟩ | ⟨rfl, rfl, rfl⟩ |
      ⟨rfl, rfl, rfl⟩ | ⟨rfl, rfl, rfl⟩
    all_goals exact ⟨Gap.skip_sign (by decide) (by decide), fun _ _ => rfl, by decide⟩
  exact .one fun rest _ => htoken rest

/-- A slash opens no comment in front of a space. -/
theorem Spells.slash :
    Spells (fun rest => rest.head? = some ' ') ['/'] (IsOne .slash) := by
  refine .one fun rest hrest => ⟨Gap.skip_stop (by decide) fun _ => ?_, fun _ _ => rfl, by decide⟩
  rw [List.nil_append, hrest]
  decide

/-- What begins with `=` begins with a sign. -/
theorem Cursor.kind_nextToken_of_equals {c : Cursor} (h : c.rest.head? = some '=') :
    c.nextToken.1.token.kind = .assign ∨ c.nextToken.1.token.kind = .equal := by
  obtain ⟨rest, hrest⟩ := List.head?_eq_some_iff.1 h
  unfold nextToken
  rw [hrest, Gap.skip_sign (by decide) (by decide)]
  change (Lexeme.oneOrTwo '=' .assign .equal rest).kind = _ ∨
    (Lexeme.oneOrTwo '=' .assign .equal rest).kind = _
  unfold Lexeme.oneOrTwo
  split
  · exact .inr rfl
  · exact .inl rfl

end Signs

section Words

/-- A word ends in front of this text. -/
def EndsWord (rest : List Char) : Prop :=
  rest.head?.all (fun c => !(isLetter c || c.isDigit)) = true

/-- Digits end in front of this text, with or without a point among them. -/
def EndsNumber (rest : List Char) : Prop :=
  rest.head?.all (fun c => !(isLetter c || c.isDigit || c == '.')) = true

theorem EndsNumber.word {rest : List Char} (h : EndsNumber rest) : EndsWord rest := by
  cases rest with
  | nil => rfl
  | cons c rest =>
    simp only [EndsNumber, EndsWord, List.head?_cons, Option.all_some, Bool.not_or,
      Bool.and_eq_true] at h ⊢
    exact h.1

theorem takeWhile_append_stop {p : Char → Bool} {more rest : List Char}
    (hmore : ∀ c ∈ more, p c = true) (hrest : ∀ c, rest.head? = some c → p c = false) :
    (more ++ rest).takeWhile p = more ∧ (more ++ rest).dropWhile p = rest := by
  have hstop : rest.takeWhile p = [] ∧ rest.dropWhile p = rest := by
    cases rest with
    | nil => exact ⟨rfl, rfl⟩
    | cons c rest => simp [hrest c rfl]
  rw [List.takeWhile_append_of_pos hmore, List.dropWhile_append_of_pos hmore, hstop.1, hstop.2,
    List.append_nil]
  exact ⟨rfl, rfl⟩

theorem isDigit_of_isLetter {c : Char} (h : isLetter c = true) : c.isDigit = false := by
  have hnot {low : UInt32} (hlow : '9'.val < low) (hle : low ≤ c.val) : c.isDigit = false := by
    refine Bool.eq_false_iff.2 fun hdigit => ?_
    have hhigh : c.val ≤ '9'.val := of_decide_eq_true (Bool.and_eq_true_iff.1 hdigit).2
    exact absurd (UInt32.le_trans hle hhigh) (UInt32.not_le.2 hlow)
  rcases Bool.or_eq_true_iff.1 h with halpha | hunderscore
  · rcases Bool.or_eq_true_iff.1 halpha with hupper | hlower
    · have hbounds : c.val ≥ 'A'.val ∧ c.val ≤ 'Z'.val := of_decide_eq_true hupper
      exact hnot (by decide) hbounds.1
    · have hlow : 'a'.val ≤ c.val := of_decide_eq_true (Bool.and_eq_true_iff.1 hlower).1
      exact hnot (by decide) hlow
  · rw [eq_of_beq hunderscore]
    rfl

theorem Lexeme.read_letter {first : Char} (h : isLetter first = true) (file : String) (m : Mark)
    (cs : List Char) : Lexeme.read file m first cs = readWord first cs := by
  unfold Lexeme.read
  split
  all_goals first
    | exact absurd h (by decide)
    | rw [if_neg (by simp [isDigit_of_isLetter h]), if_pos h]

theorem isSpace_of_isLetter {c : Char} (h : isLetter c = true) :
    Gap.isSpace c = false ∧ c ≠ '/' := by
  refine ⟨?_, ?_⟩
  · unfold Gap.isSpace
    simp only [Bool.or_eq_false_iff, beq_eq_false_iff_ne]
    refine ⟨⟨⟨?_, ?_⟩, ?_⟩, ?_⟩ <;> rintro rfl <;> contradiction
  · rintro rfl
    contradiction

/-- A word in front of what ends it. -/
theorem isToken_word {first : Char} {more rest : List Char} (hfirst : isLetter first = true)
    (hmore : ∀ c ∈ more, (isLetter c || c.isDigit) = true) (hrest : EndsWord rest)
    {kind : TokenKind}
    (hkind : (TokenKind.keyword? (String.ofList (first :: more))).getD .identifier = kind) :
    IsToken first more rest kind none := by
  obtain ⟨hspace, hslash⟩ := isSpace_of_isLetter hfirst
  have hstop (c : Char) (hc : rest.head? = some c) : (isLetter c || c.isDigit) = false := by
    simpa [EndsWord, hc] using hrest
  have htake := (takeWhile_append_stop (p := fun c => isLetter c || c.isDigit) hmore hstop).1
  refine ⟨Gap.skip_sign hspace hslash, fun file m => ?_, ?_⟩
  · rw [Lexeme.read_letter hfirst]
    unfold Lexeme.readWord
    dsimp only
    rw [htake, hkind]
  · rintro rfl
    cases hword : TokenKind.keyword? (String.ofList (first :: more)) with
    | none =>
      rw [hword] at hkind
      contradiction
    | some kind =>
      rw [hword, Option.getD_some] at hkind
      subst hkind
      exact absurd (List.mem_of_find?_eq_some hword) (by decide)

theorem Spells.keyword (kind : TokenKind) (h : kind ∈ TokenKind.keywords) :
    Spells EndsWord kind.text.toList (IsOne kind) := by
  simp only [TokenKind.keywords, List.mem_cons, List.not_mem_nil, or_false] at h
  rcases h with rfl | rfl | rfl | rfl | rfl | rfl | rfl | rfl | rfl | rfl
  all_goals exact .one fun rest hrest =>
    isToken_word (by decide) (List.all_eq_true.1 (by decide)) hrest (by decide +kernel)

theorem Spells.name {text : String} (h : IsName text) :
    Spells EndsWord text.toList fun ts =>
      ∃ t, ts = [t] ∧ t.kind = .identifier ∧ t.lexeme = text := by
  obtain ⟨first, more, rfl, hfirst, hmore, hkeyword⟩ := h
  rw [String.toList_ofList]
  have htoken (rest : List Char) (hrest : EndsWord rest) :
      IsToken first more rest .identifier none :=
    isToken_word hfirst hmore hrest (by rw [hkeyword, Option.getD_none])
  exact (Spells.token htoken).mono fun _ ⟨_, hts⟩ => ⟨_, hts, rfl, rfl⟩

end Words

section Stream

theorem Cursor.Reads.scan {c c' : Cursor} {ts : List Token} (h : c.Reads ts c')
    (before : Array Scanned) :
    TokenStream.scan before c =
      TokenStream.scan (before ++ (ts.map fun t => (⟨t, #[]⟩ : Scanned)).toArray) c' := by
  induction h generalizing before with
  | none => simp
  | @one c c' ts hfaults hkind _ ih =>
    have hnext : c.nextToken.1 = ⟨c.nextToken.1.token, #[]⟩ := by
      rw [← hfaults]
    rw [TokenStream.scan, if_neg hkind, ih]
    simp [← hnext]

theorem Cursor.Ahead.scan {c : Cursor} (h : c.Ahead []) (before : Array Scanned) :
    (TokenStream.scan before c).ahead = before.toList ∧
      (TokenStream.scan before c).stop.faults = #[] := by
  obtain ⟨gap, hgap, hrest⟩ := h
  obtain ⟨m, hm⟩ := Gap.skip_end c.mark hgap
  have hnext : c.nextToken.1 = ⟨⟨.endOfStream, "", none, m.position c.file⟩, #[]⟩ := by
    unfold Cursor.nextToken
    rw [hrest, List.append_nil, hm]
  rw [TokenStream.scan, hnext, if_pos rfl]
  exact ⟨rfl, rfl⟩

/-- The tokens of a whole text, none of them with anything wrong. -/
theorem Spells.ofText {ends : List Char → Prop} {text : String} {P : List Token → Prop}
    (h : Spells ends text.toList P) (hends : ends []) (file : String) :
    ∃ ts, P ts ∧ (TokenStream.ofText file text).ahead = ts.map (fun t => ⟨t, #[]⟩) ∧
      (TokenStream.ofText file text).stop.faults = #[] := by
  have hstart := (Cursor.ofText file text).ahead_rest
  rw [← List.append_nil (Cursor.ofText file text).rest] at hstart
  obtain ⟨ts, c', hreads, hend, hP⟩ := h _ [] hends hstart
  obtain ⟨hahead, hstop⟩ := hend.scan (#[] ++ (ts.map fun t => (⟨t, #[]⟩ : Scanned)).toArray)
  rw [← hreads.scan] at hahead hstop
  refine ⟨ts, hP, ?_, hstop⟩
  simpa [TokenStream.ofText, TokenStream.ofCursor] using hahead

end Stream

end StackScript
