import StackScript.Proofs.Token.Extent
import StackScript.Proofs.Token.Tiling

/-!
The lexer as a cursor goes through the text. It looks one or two characters ahead, reads one
character at a time, and in the end the lexeme is cut out between two offsets, where the rules
for tokens only count how many characters they take. Main statement: a cursor that agrees with
its text comes to the same token, tells the same and ends at the same place either way.
-/

namespace StackScript

/-- A token as it is cut, with the cursor behind it. -/
structure Cut where
  kind : TokenKind
  literal : Option Value := none
  faults : Array Diagnostic := #[]
  behind : Cursor

namespace Cursor

theorem length_read {c : Cursor} (h : c.peek.isSome) : c.read.2.rest.length < c.rest.length := by
  unfold read peek at *
  cases hrest : c.rest with
  | nil => simp [hrest] at h
  | cons ch rest => exact Nat.lt_succ_self _

theorem length_read_le (c : Cursor) : c.read.2.rest.length ≤ c.rest.length := by
  unfold read
  split
  · exact Nat.le_refl _
  next hrest =>
    rw [hrest]
    exact Nat.le_succ _

/-- Reads on as long as the next character is one of these. -/
def readWhile (p : Char → Bool) (c : Cursor) : Cursor :=
  if c.peek.any p then c.read.2.readWhile p else c
termination_by c.rest.length
decreasing_by exact length_read (Option.isSome_of_any ‹_›)

/-- Whether these are the next two characters. -/
def Sees (first second : Char) (c : Cursor) : Prop :=
  c.peek = some first ∧ c.peekNext = some second

instance (first second : Char) (c : Cursor) : Decidable (c.Sees first second) :=
  inferInstanceAs (Decidable (_ ∧ _))

theorem Sees.length_read {first second : Char} {c : Cursor} (h : c.Sees first second) :
    c.read.2.read.2.rest.length < c.rest.length :=
  Nat.lt_of_le_of_lt (length_read_le _) (Cursor.length_read (Option.isSome_of_eq_some h.1))

/-- Reads on to where all of so many open comments end, and says whether they do. -/
def skipBlock (depth : Nat) (c : Cursor) : Bool × Cursor :=
  if depth = 0 then (true, c)
  else if c.Sees '/' '*' then c.read.2.read.2.skipBlock (depth + 1)
  else if c.Sees '*' '/' then c.read.2.read.2.skipBlock (depth - 1)
  else if c.peek.isSome then c.read.2.skipBlock depth
  else (false, c)
termination_by c.rest.length
decreasing_by
  · exact Sees.length_read ‹_›
  · exact Sees.length_read ‹_›
  · exact length_read ‹_›

section Lengths

variable (c : Cursor)

theorem length_readWhile_le (p : Char → Bool) : (c.readWhile p).rest.length ≤ c.rest.length := by
  fun_induction readWhile p c with
  | case1 c _ ih => exact Nat.le_trans ih (length_read_le c)
  | case2 => exact Nat.le_refl _

theorem length_readWhile {p : Char → Bool} (h : c.peek.any p = true) :
    (c.readWhile p).rest.length < c.rest.length := by
  rw [readWhile, if_pos h]
  exact Nat.lt_of_le_of_lt (length_readWhile_le _ p) (length_read (Option.isSome_of_any h))

theorem length_skipBlock_le (depth : Nat) : (c.skipBlock depth).2.rest.length ≤ c.rest.length := by
  fun_induction skipBlock depth c with
  | case1 | case5 => exact Nat.le_refl _
  | case2 _ _ _ h ih | case3 _ _ _ _ h ih => exact Nat.le_trans ih (Nat.le_of_lt h.length_read)
  | case4 _ c _ _ _ _ ih => exact Nat.le_trans ih (length_read_le c)

end Lengths

/-- Skips white space and comments. -/
def skipTrivia (faults : Array Diagnostic) (c : Cursor) : Array Diagnostic × Cursor :=
  if c.Sees '/' '/' then (c.readWhile (· ≠ '\n')).skipTrivia faults
  else if c.Sees '/' '*' then
    let block := c.read.2.read.2.skipBlock 1
    block.2.skipTrivia
      (if block.1 then faults else faults.push (.error c.position .endInComment []))
  else if c.peek.any Gap.isSpace then c.read.2.skipTrivia faults
  else (faults, c)
termination_by c.rest.length
decreasing_by
  · refine length_readWhile c ?_
    rw [(show c.Sees '/' '/' from ‹_›).1]
    rfl
  · exact Nat.lt_of_le_of_lt (length_skipBlock_le _ 1) (Sees.length_read ‹_›)
  · exact length_read (Option.isSome_of_any ‹_›)

/-- A token of two characters if the second one follows, else of one. -/
def oneOrTwo (second : Char) (single double : TokenKind) (c : Cursor) : Cut :=
  let (both, behind) := c.eat second
  { kind := if both then double else single, behind }

/-- Reads a string that `start` stands in front of, up to its end. -/
def readString (start : Cursor) (quote : Char) (decoded : String) (faults : Array Diagnostic)
    (c : Cursor) : Cut :=
  let finish (faults : Array Diagnostic) (behind : Cursor) : Cut :=
    { kind := .string, literal := some (.string decoded), faults, behind }
  let unclosed := Diagnostic.error start.position .endInString []
  match _ : c.peek with
  | none => finish (faults.push unclosed) c
  | some ch =>
    if ch = '\n' ∨ ch = '\t' then finish (faults.push unclosed) c
    else if ch = quote then finish faults c.read.2
    else if ch = '\\' then
      match c.read.2.peek with
      | none => finish (faults.push unclosed) c.read.2
      | some escaped =>
        match Lexeme.unescape? escaped with
        | some meant => readString start quote (decoded.push meant) faults c.read.2.read.2
        | none =>
          let fault := Diagnostic.error c.position .invalidEscape [escaped.toString]
          readString start quote decoded (faults.push fault) c.read.2.read.2
    else readString start quote (decoded.push ch) faults c.read.2
termination_by c.rest.length
decreasing_by
  · have hlt := length_read (Option.isSome_of_eq_some ‹c.peek = some _›)
    exact Nat.lt_of_le_of_lt (length_read_le _) hlt
  · have hlt := length_read (Option.isSome_of_eq_some ‹c.peek = some _›)
    exact Nat.lt_of_le_of_lt (length_read_le _) hlt
  · exact length_read (Option.isSome_of_eq_some ‹c.peek = some _›)

/-- The number that a lexeme with a point in it is. -/
def numberOf (lexeme : List Char) : Option Value :=
  Lexeme.numberLiteral (lexeme.takeWhile Char.isDigit) ((lexeme.dropWhile Char.isDigit).drop 1)

def readNumber (start c : Cursor) : Cut :=
  let behind := c.readWhile Char.isDigit
  if behind.peek = some '.' ∧ behind.peekNext.any Char.isDigit then
    let behind := behind.read.2.readWhile Char.isDigit
    { kind := .number, literal := numberOf (c.slice start.offset behind.offset).toList, behind }
  else
    { kind := .int
      literal := Lexeme.intLiteral (c.slice start.offset behind.offset).toList
      behind }

def readWord (start c : Cursor) : Cut :=
  let behind := c.readWhile fun ch => isLetter ch || ch.isDigit
  { kind := (TokenKind.keyword? (c.slice start.offset behind.offset)).getD .identifier, behind }

/-- The token that starts with `first`, which has been read, at `start`. -/
def readToken (start : Cursor) (first : Char) (c : Cursor) : Cut :=
  let single (kind : TokenKind) : Cut := { kind, behind := c }
  match first with
  | '{' => single .openBrace
  | '}' => single .closeBrace
  | '(' => single .openParen
  | ')' => single .closeParen
  | '[' => single .openBracket
  | ']' => single .closeBracket
  | '+' => single .plus
  | '-' => single .minus
  | '*' => single .star
  | '/' => single .slash
  | '%' => single .percent
  | ',' => single .comma
  | ':' => single .colon
  | ';' => single .semicolon
  | '~' => single .bitNot
  | '.' => c.oneOrTwo '.' .dot .dotDot
  | '=' => c.oneOrTwo '=' .assign .equal
  | '!' => c.oneOrTwo '=' .not .notEqual
  | '<' => c.oneOrTwo '=' .less .lessEqual
  | '>' => c.oneOrTwo '=' .greater .greaterEqual
  | '&' => c.oneOrTwo '&' .bitAnd .and
  | '|' => c.oneOrTwo '|' .bitOr .or
  | '\'' => start.readString first "" #[] c
  | '"' => start.readString first "" #[] c
  | ch =>
    if ch.isDigit then start.readNumber c
    else if isLetter ch then start.readWord c
    else
      { single .unknown with
        faults := #[.error start.position .unknownCharacter [ch.toString]] }

/-- The token that has been cut at `start`. -/
def cutFrom (start : Cursor) (told : Array Diagnostic) (found : Cut) : Scanned × Cursor :=
  let lexeme := start.slice start.offset found.behind.offset
  ({ token := ⟨found.kind, lexeme, found.literal, start.position⟩
     faults := told ++ found.faults }, found.behind)

/-- The next token, one step after the other. -/
def stepToken (c : Cursor) : Scanned × Cursor :=
  let (told, start) := c.skipTrivia #[]
  match start.read with
  | (none, behind) =>
    ({ token := ⟨.endOfStream, "", none, start.position⟩, faults := told }, behind)
  | (some first, c) => start.cutFrom told (start.readToken first c)

/-- The cursor behind so many more characters. -/
def ahead (c : Cursor) (n : Nat) : Cursor := c.past (c.rest.take n) (c.rest.drop n)

section Past

variable {c : Cursor} {front rest : List Char}

theorem ahead_length (h : c.rest = front ++ rest) : c.ahead front.length = c.past front rest := by
  rw [ahead, h, List.take_left, List.drop_left]

theorem past_past (c : Cursor) (front front' rest rest' : List Char) :
    (c.past front rest).past front' rest' = c.past (front ++ front') rest' := by
  unfold past
  rw [List.foldl_append]

theorem read_past (c : Cursor) (front rest : List Char) (ch : Char) :
    (c.past front (ch :: rest)).read = (some ch, c.past (front ++ [ch]) rest) :=
  congrArg (some ch, ·) (past_past c front [ch] _ rest)

theorem readWhile_past (p : Char → Bool) (c : Cursor) (front rest : List Char) :
    (c.past front rest).readWhile p =
      c.past (front ++ rest.takeWhile p) (rest.dropWhile p) := by
  induction rest generalizing front with
  | nil =>
    rw [readWhile, List.takeWhile_nil, List.append_nil]
    rfl
  | cons ch rest ih =>
    have hpeek : (c.past front (ch :: rest)).peek.any p = p ch := rfl
    rw [readWhile, hpeek]
    cases hch : p ch with
    | true =>
      rw [if_pos rfl, read_past, ih, List.takeWhile_cons_of_pos hch,
        List.dropWhile_cons_of_pos hch, List.append_assoc]
      rfl
    | false =>
      have hnot : ¬p ch = true := by rw [hch]; exact Bool.false_ne_true
      rw [if_neg Bool.false_ne_true, List.takeWhile_cons_of_neg hnot,
        List.dropWhile_cons_of_neg hnot, List.append_nil]

theorem Sound.slice_past (h : c.Sound) (hrest : c.rest = front ++ rest) :
    c.slice c.offset (c.past front rest).offset = String.ofList front :=
  congrArg String.ofList (h.between_past hrest)

end Past

end Cursor

/-- What a rule for a token has found, cut from a cursor behind the first character. -/
def Lexeme.cut (l : Lexeme) (c : Cursor) : Cut := ⟨l.kind, l.literal, l.faults, c.ahead l.more⟩

namespace Gap

/-- Goes on through a gap in which this has been opened. -/
def goOn (faults : Array Diagnostic) (c : Cursor) : Gap → Array Diagnostic × Cursor
  | space => c.skipTrivia faults
  | line => (c.readWhile (· ≠ '\n')).skipTrivia faults
  | block start outer =>
    let block := c.skipBlock (outer + 1)
    block.2.skipTrivia
      (if block.1 then faults else faults.push (.error (start.position c.file) .endInComment []))

/-- What is told of a comment that stays open. -/
def unclosed (file : String) : Option Mark → Array Diagnostic
  | some start => #[.error (start.position file) .endInComment []]
  | none => #[]

section Steps

variable {faults : Array Diagnostic} {file : String} {source cs : List Char} {m : Mark} {ch : Char}

/-- Two characters are not ahead if the automaton has not taken them together. -/
theorem not_sees {first second : Char} (h : ∀ more, ch = first → cs = second :: more → False) :
    ¬Cursor.Sees first second ⟨file, source, m, ch :: cs⟩ := by
  rintro ⟨hfirst, hsecond⟩
  cases cs with
  | nil => cases hsecond
  | cons ch' more =>
    obtain rfl : ch' = second := Option.some.inj hsecond
    exact h more (Option.some.inj hfirst) rfl

theorem goOn_stop (hslash : ¬Cursor.Sees '/' '/' ⟨file, source, m, cs⟩)
    (hstar : ¬Cursor.Sees '/' '*' ⟨file, source, m, cs⟩) (hspace : ¬cs.head?.any isSpace = true) :
    goOn faults ⟨file, source, m, cs⟩ space = (faults, ⟨file, source, m, cs⟩) := by
  rw [goOn, Cursor.skipTrivia, if_neg hslash, if_neg hstar]
  exact if_neg hspace

theorem goOn_space (hslash : ∀ more, ch = '/' → cs = '/' :: more → False)
    (hstar : ∀ more, ch = '/' → cs = '*' :: more → False) (hch : isSpace ch = true) :
    goOn faults ⟨file, source, m, ch :: cs⟩ space =
      goOn faults ⟨file, source, m.after ch, cs⟩ space := by
  rw [goOn, Cursor.skipTrivia, if_neg (not_sees hslash), if_neg (not_sees hstar)]
  exact if_pos hch

theorem goOn_line (faults : Array Diagnostic) (ch : Char) :
    goOn faults ⟨file, source, m, ch :: cs⟩ line =
      goOn faults ⟨file, source, m.after ch, cs⟩ (if ch = '\n' then space else line) := by
  rw [goOn, Cursor.readWhile]
  by_cases hch : ch = '\n'
  · -- the line feed is left for the white space behind the comment
    subst hch
    exact goOn_space (by simp) (by simp) rfl
  · rw [if_neg hch, if_pos]
    · rfl
    · simpa [Cursor.peek] using hch

theorem goOn_openLine (faults : Array Diagnostic) :
    goOn faults ⟨file, source, m, '/' :: '/' :: cs⟩ space =
      goOn faults ⟨file, source, (m.after '/').after '/', cs⟩ line := by
  rw [goOn, Cursor.skipTrivia, if_pos ⟨rfl, rfl⟩]
  exact (goOn_line faults '/').trans (goOn_line faults '/')

theorem goOn_openBlock (faults : Array Diagnostic) :
    goOn faults ⟨file, source, m, '/' :: '*' :: cs⟩ space =
      goOn faults ⟨file, source, (m.after '/').after '*', cs⟩ (block m 0) := by
  rw [goOn, Cursor.skipTrivia, if_neg (not_sees (by simp)), if_pos ⟨rfl, rfl⟩]
  rfl

variable (faults) (start : Mark) (outer : Nat)

theorem goOn_block (hopens : ∀ more, ch = '/' → cs = '*' :: more → False)
    (hcloses : ∀ more, ch = '*' → cs = '/' :: more → False) :
    goOn faults ⟨file, source, m, ch :: cs⟩ (block start outer) =
      goOn faults ⟨file, source, m.after ch, cs⟩ (block start outer) := by
  rw [goOn, Cursor.skipBlock, if_neg (Nat.succ_ne_zero outer), if_neg (not_sees hopens),
    if_neg (not_sees hcloses)]
  rfl

theorem goOn_open : goOn faults ⟨file, source, m, '/' :: '*' :: cs⟩ (block start outer) =
    goOn faults ⟨file, source, (m.after '/').after '*', cs⟩ (block start (outer + 1)) := by
  have hskip : Cursor.skipBlock (outer + 1) ⟨file, source, m, '/' :: '*' :: cs⟩ =
      Cursor.skipBlock (outer + 2) ⟨file, source, (m.after '/').after '*', cs⟩ := by
    rw [Cursor.skipBlock, if_neg (Nat.succ_ne_zero outer), if_pos ⟨rfl, rfl⟩]
    rfl
  rw [goOn, hskip]
  rfl

theorem goOn_close : goOn faults ⟨file, source, m, '*' :: '/' :: cs⟩ (block start outer) =
    goOn faults ⟨file, source, (m.after '*').after '/', cs⟩ (closeOne start outer) := by
  have hskip : Cursor.skipBlock (outer + 1) ⟨file, source, m, '*' :: '/' :: cs⟩ =
      Cursor.skipBlock outer ⟨file, source, (m.after '*').after '/', cs⟩ := by
    rw [Cursor.skipBlock, if_neg (Nat.succ_ne_zero outer), if_neg (not_sees (by simp)),
      if_pos ⟨rfl, rfl⟩]
    rfl
  rw [goOn, hskip]
  cases outer with
  | zero =>
    -- behind the outermost comment the gap goes on as it began
    rw [Cursor.skipBlock]
    rfl
  | succ outer => rfl

end Steps

theorem goOn_nil (gap : Gap) (faults : Array Diagnostic) (file : String) (source : List Char)
    (m : Mark) : gap.goOn faults ⟨file, source, m, []⟩ =
      (faults ++ unclosed file gap.opened, ⟨file, source, m, []⟩) := by
  have hstop (faults : Array Diagnostic) :
      goOn faults ⟨file, source, m, []⟩ space = (faults, ⟨file, source, m, []⟩) :=
    goOn_stop (by rintro ⟨⟨⟩⟩) (by rintro ⟨⟨⟩⟩) Bool.false_ne_true
  cases gap with
  | space => rw [hstop]; rfl
  | line =>
    rw [goOn, Cursor.readWhile]
    exact hstop faults
  | block start outer =>
    rw [goOn, Cursor.skipBlock]
    exact hstop _

/-- The loops over a gap come to where the automaton does. -/
theorem goOn_eq (gap : Gap) (faults : Array Diagnostic) (file : String) (source : List Char)
    (m : Mark) (cs : List Char) :
    gap.goOn faults ⟨file, source, m, cs⟩ =
      (faults ++ unclosed file (gap.skip m cs).1,
        ⟨file, source, (gap.skip m cs).2.1, (gap.skip m cs).2.2⟩) := by
  fun_induction Gap.skip gap m cs with
  | case1 gap m => exact goOn_nil gap faults file source m
  | case2 m cs ih => exact (goOn_openLine faults).trans ih
  | case3 m cs ih => exact (goOn_openBlock faults).trans ih
  | case4 m ch cs hslash hstar hch ih => exact (goOn_space hslash hstar hch).trans ih
  | case5 m ch cs hslash hstar hch => exact goOn_stop (not_sees hslash) (not_sees hstar) hch
  | case6 m ch cs ih => exact (goOn_line faults ch).trans ih
  | case7 m start outer cs ih => exact (goOn_open faults start outer).trans ih
  | case8 m start outer cs ih => exact (goOn_close faults start outer).trans ih
  | case9 m start outer ch cs hopens hcloses ih =>
    exact (goOn_block faults start outer hopens hcloses).trans ih

end Gap

namespace Cursor

/-- These characters have been read from a cursor, so many of them, up to this place. -/
structure Taken (c : Cursor) (front rest : List Char) (m : Mark) (count : Nat) : Prop where
  rest : c.rest = front ++ rest
  mark : m = front.foldl Mark.after c.mark
  count : count = front.length

section Tokens

variable {c start : Cursor} {front rest : List Char} {m : Mark} {count : Nat} {ch : Char}

theorem Taken.read (h : c.Taken front (ch :: rest) m count) :
    c.Taken (front ++ [ch]) rest (m.after ch) (count + 1) where
  rest := by
    rw [h.rest, List.append_assoc]
    rfl
  mark := by
    rw [List.foldl_append, ← h.mark]
    rfl
  count := by
    rw [List.length_append, h.count]
    rfl

theorem Taken.ahead (h : c.Taken front rest m count) : c.ahead count = c.past front rest := by
  rw [h.count, ahead_length h.rest]

theorem oneOrTwo_eq (second : Char) (single double : TokenKind) (c : Cursor) :
    c.oneOrTwo second single double = (Lexeme.oneOrTwo second single double c.rest).cut c := by
  unfold oneOrTwo eat Lexeme.oneOrTwo peek
  by_cases h : c.rest.head? = some second
  · obtain ⟨file, source, m, cs⟩ := c
    cases cs with
    | nil => cases h
    | cons ch cs =>
      rw [if_pos h, if_pos h]
      rfl
  · rw [if_neg h, if_neg h]
    rfl

theorem cut_finish (h : c.Taken front rest m count) (decoded : List Char)
    (faults : Array Diagnostic) : (Lexeme.readString.finish count decoded faults).cut c =
      { kind := .string, literal := some (.string (String.ofList decoded.reverse)), faults
        behind := c.past front rest } := by
  rw [← h.ahead]
  rfl

theorem ofList_reverse_cons (decoded : List Char) (ch : Char) :
    (String.ofList decoded.reverse).push ch = String.ofList (ch :: decoded).reverse := by
  rw [List.reverse_cons, String.ofList_append]
  rfl

theorem readString_eq (quote : Char) (decoded : List Char) (faults : Array Diagnostic)
    (hfile : start.file = c.file) (h : c.Taken front rest m count) :
    readString start quote (String.ofList decoded.reverse) faults (c.past front rest) =
      (Lexeme.readString c.file start.mark quote m count decoded faults rest).cut c := by
  generalize hf : c.file = file
  generalize hs : start.mark = mark
  have hunclosed : Diagnostic.error start.position .endInString [] =
      Lexeme.readString.unclosed file mark := by
    rw [← hs, ← hf, ← hfile]
    rfl
  fun_induction Lexeme.readString file mark quote m count decoded faults rest
    generalizing front
  case case1 m count decoded faults =>
    rw [cut_finish h, ← hunclosed, readString]
    rfl
  case case2 m count decoded faults ch cs hch =>
    rw [cut_finish h, ← hunclosed, readString]
    exact if_pos hch
  case case3 m count decoded faults cs hch =>
    rw [cut_finish h.read, readString]
    refine (if_neg hch).trans ((if_pos rfl).trans ?_)
    rw [read_past]
  case case4 m count decoded faults hch hquote =>
    rw [cut_finish h.read, ← hunclosed, readString]
    refine (if_neg hch).trans ((if_neg hquote).trans ((if_pos rfl).trans ?_))
    rw [read_past]
    rfl
  case case5 m count decoded faults e cs d hmeant hch hquote behind ih =>
    rw [← ih h.read.read, readString]
    refine (if_neg hch).trans ((if_neg hquote).trans ((if_pos rfl).trans ?_))
    rw [read_past, read_past, ← ofList_reverse_cons]
    change (match Lexeme.unescape? e with | some meant => _ | none => _) = _
    rw [hmeant]
  case case6 m count decoded faults e cs hmeant fault hch hquote behind ih =>
    have hfault : Diagnostic.error (c.past front ('\\' :: e :: cs)).position .invalidEscape
        [e.toString] = fault := by
      rw [show fault = .error (m.position file) .invalidEscape [e.toString] from rfl, h.mark, ← hf]
      rfl
    rw [← ih h.read.read, readString]
    refine (if_neg hch).trans ((if_neg hquote).trans ((if_pos rfl).trans ?_))
    rw [read_past, read_past, ← hfault]
    change (match Lexeme.unescape? e with | some meant => _ | none => _) = _
    rw [hmeant]
  case case7 m count decoded faults ch cs hch hquote hslash ih =>
    rw [← ih h.read, readString]
    refine (if_neg hch).trans ((if_neg hquote).trans ((if_neg hslash).trans ?_))
    rw [read_past, ofList_reverse_cons]

variable {first : Char} {rest : List Char}

theorem readWhile_eq (p : Char → Bool) (c : Cursor) :
    c.readWhile p = c.ahead (c.rest.takeWhile p).length := by
  rw [ahead_length List.takeWhile_append_dropWhile.symm]
  exact readWhile_past p c [] c.rest

theorem readWord_eq (h : start.Sound) (hrest : start.rest = first :: rest) :
    start.readWord (start.past [first] rest) =
      (Lexeme.readWord first rest).cut (start.past [first] rest) := by
  unfold readWord Lexeme.readWord
  generalize hp : (fun ch => isLetter ch || ch.isDigit) = p
  have hsplit : start.rest = (first :: rest.takeWhile p) ++ rest.dropWhile p := by
    rw [hrest, List.cons_append, List.takeWhile_append_dropWhile]
  have hslice : (start.past [first] rest).slice start.offset
      ((start.past [first] rest).readWhile p).offset =
        String.ofList (first :: rest.takeWhile p) := by
    rw [readWhile_past]
    exact h.slice_past hsplit
  unfold Lexeme.cut
  dsimp only
  rw [hslice, readWhile_eq]
  rfl

theorem numberOf_point {whole : List Char} (hwhole : ∀ ch ∈ whole, ch.isDigit = true)
    (part : List Char) : numberOf (whole ++ '.' :: part) = Lexeme.numberLiteral whole part := by
  unfold numberOf
  rw [List.takeWhile_append_of_pos hwhole, List.dropWhile_append_of_pos hwhole,
    List.takeWhile_cons_of_neg (by decide), List.dropWhile_cons_of_neg (by decide),
    List.append_nil]
  rfl

theorem readWhile_stop {p : Char → Bool} {front more after : List Char}
    (hmore : ∀ ch ∈ more, p ch = true) (hstop : ∀ ch, after.head? = some ch → p ch = false)
    (c : Cursor) : (c.past front (more ++ after)).readWhile p = c.past (front ++ more) after := by
  obtain ⟨htake, hdrop⟩ := takeWhile_append_stop hmore hstop
  rw [readWhile_past, htake, hdrop]

theorem ahead_past (c : Cursor) (front more after : List Char) :
    (c.past front (more ++ after)).ahead more.length = c.past (front ++ more) after :=
  (ahead_length rfl).trans (past_past c front more _ after)

section Numbers

variable {more part after : List Char}

theorem readNumber_fraction (h : start.Sound)
    (hrest : start.rest = first :: (more ++ '.' :: (part ++ after)))
    (hfirst : first.isDigit = true) (hmore : ∀ ch ∈ more, ch.isDigit = true)
    (hpart : ∀ ch ∈ part, ch.isDigit = true) (hne : part ≠ [])
    (hstop : ∀ ch, after.head? = some ch → ch.isDigit = false) :
    start.readNumber (start.past [first] (more ++ '.' :: (part ++ after))) =
      (Lexeme.readNumber first (more ++ '.' :: (part ++ after))).cut
        (start.past [first] (more ++ '.' :: (part ++ after))) := by
  have hpoint : ∀ ch, ('.' :: (part ++ after)).head? = some ch → ch.isDigit = false := by
    rintro _ ⟨⟩
    rfl
  have hahead : (start.past [first] (more ++ '.' :: (part ++ after))).ahead
      (more.length + 1 + part.length) = start.past ([first] ++ more ++ ['.'] ++ part) after := by
    have hcount : more.length + 1 + part.length = (more ++ ['.'] ++ part).length := by
      simp only [List.length_append, List.length_singleton]
    have hpast := ahead_past start [first] (more ++ ['.'] ++ part) after
    simpa [hcount] using hpast
  have hslice : start.slice start.offset
      (start.past ([first] ++ more ++ ['.'] ++ part) after).offset =
        String.ofList ((first :: more) ++ '.' :: part) := by
    rw [h.slice_past (by rw [hrest]; simp)]
    simp
  have hdigits : ∀ ch ∈ first :: more, ch.isDigit = true := List.forall_mem_cons.2 ⟨hfirst, hmore⟩
  have hnext : (part ++ after).head?.any Char.isDigit = true := by
    obtain ⟨ch, part, rfl⟩ := List.exists_cons_of_ne_nil hne
    exact hpart ch (List.mem_cons_self ..)
  rw [Lexeme.readNumber_number hmore hpart hne hstop, readNumber, readWhile_stop hmore hpoint]
  refine (if_pos ⟨rfl, hnext⟩).trans ?_
  unfold Lexeme.cut
  dsimp only
  rw [read_past, readWhile_stop hpart hstop, hahead, ← numberOf_point hdigits]
  change Cut.mk _ (numberOf (start.slice start.offset _).toList) _ _ = _
  rw [hslice, String.toList_ofList]

theorem readNumber_whole (h : start.Sound) (hrest : start.rest = first :: (more ++ after))
    (hmore : ∀ ch ∈ more, ch.isDigit = true)
    (hstop : ∀ ch, after.head? = some ch → ch.isDigit = false)
    (hpoint : ∀ tail, after = '.' :: tail → ∀ ch, tail.head? = some ch → ch.isDigit = false) :
    start.readNumber (start.past [first] (more ++ after)) =
      (Lexeme.readNumber first (more ++ after)).cut (start.past [first] (more ++ after)) := by
  have hslice : start.slice start.offset (start.past ([first] ++ more) after).offset =
      String.ofList (first :: more) := h.slice_past hrest
  rw [Lexeme.readNumber_int hmore hstop fun tail htail =>
    Lexeme.takeWhile_eq_nil (hpoint tail htail), readNumber, readWhile_stop hmore hstop]
  refine (if_neg ?_).trans ?_
  · rintro ⟨hpeek, hnext⟩
    obtain ⟨tail, rfl⟩ := List.head?_eq_some_iff.1 hpeek
    obtain ⟨ch, hch, hdigit⟩ := (Option.any_eq_true _ _).1 hnext
    rw [hpoint tail rfl ch hch] at hdigit
    cases hdigit
  · unfold Lexeme.cut
    dsimp only
    rw [ahead_past]
    change Cut.mk _ (Lexeme.intLiteral (start.slice start.offset _).toList) _ _ = _
    rw [hslice, String.toList_ofList]

theorem readNumber_eq (h : start.Sound) (hrest : start.rest = first :: rest)
    (hfirst : first.isDigit = true) : start.readNumber (start.past [first] rest) =
      (Lexeme.readNumber first rest).cut (start.past [first] rest) := by
  cases Lexeme.digits rest with
  | whole hmore hstop hpoint => exact readNumber_whole h hrest hmore hstop hpoint
  | fraction hmore hpart hne hstop => exact readNumber_fraction h hrest hfirst hmore hpart hne hstop

end Numbers

theorem readToken_eq (h : start.Sound) (hrest : start.rest = first :: rest) :
    start.readToken first (start.past [first] rest) =
      (Lexeme.read start.file start.mark first rest).cut (start.past [first] rest) := by
  have htaken : (start.past [first] rest).Taken [] rest (start.mark.after first) 0 :=
    ⟨rfl, rfl, rfl⟩
  have hfile : start.file = (start.past [first] rest).file := rfl
  have hstring : start.readString first "" #[] (start.past [first] rest) =
      (Lexeme.readString start.file start.mark first (start.mark.after first) 0 [] #[] rest).cut
        (start.past [first] rest) := readString_eq first [] #[] hfile htaken
  fun_cases Lexeme.read start.file start.mark first rest
  all_goals unfold readToken
  case case25 hdigit =>
    simp only
    rw [if_pos hdigit]
    exact readNumber_eq h hrest hdigit
  case case26 hdigit hletter =>
    simp only
    rw [if_neg hdigit, if_pos hletter]
    exact readWord_eq h hrest
  case case27 hdigit hletter =>
    simp only
    rw [if_neg hdigit, if_neg hletter]
    rfl
  all_goals first
    | rfl
    | exact oneOrTwo_eq _ _ _ _
    | exact hstring

end Tokens

section Main

variable {c : Cursor}

/-- The cursor behind a gap. -/
theorem Sound.skip (h : c.Sound) : (⟨c.file, c.source, (Gap.space.skip c.mark c.rest).2.1,
    (Gap.space.skip c.mark c.rest).2.2⟩ : Cursor).Sound := by
  have hskipped := Gap.skipped_space c.mark c.rest
  generalize hrest : c.rest = ahead at hskipped
  generalize Gap.space.skip c.mark ahead = result at hskipped
  cases hskipped with
  | @whole gap rest => exact h.past hrest
  | @unclosed gap comment =>
    rw [← List.append_nil (gap ++ comment)] at hrest
    exact h.past hrest

/-- Step by step a cursor comes to the same token, tells the same and ends at the same place as
by counting. -/
theorem Sound.stepToken_eq (h : c.Sound) : c.stepToken = c.nextToken := by
  have hgap : c.skipTrivia #[] = _ := Gap.goOn_eq .space #[] c.file c.source c.mark c.rest
  have hstart := h.skip
  unfold stepToken nextToken
  rw [hgap]
  generalize Gap.space.skip c.mark c.rest = skipped at hstart
  obtain ⟨opened, m, rest⟩ := skipped
  have htold : #[] ++ Gap.unclosed c.file opened = Gap.unclosed c.file opened := Array.empty_append
  cases rest with
  | nil =>
    dsimp only
    rw [htold]
    rfl
  | cons first rest =>
    let start : Cursor := ⟨c.file, c.source, m, first :: rest⟩
    let found := Lexeme.read c.file m first rest
    have hsplit : start.rest = (first :: rest.take found.more) ++ rest.drop found.more := by
      rw [List.cons_append, List.take_append_drop]
    have hbehind : (start.past [first] rest).ahead found.more =
        start.past (first :: rest.take found.more) (rest.drop found.more) :=
      past_past start [first] _ _ _
    have hlexeme : start.slice start.offset ((start.past [first] rest).ahead found.more).offset =
        String.ofList (first :: rest.take found.more) := by
      rw [hbehind]
      exact hstart.slice_past hsplit
    change start.cutFrom _ (start.readToken first (start.past [first] rest)) = _
    rw [readToken_eq hstart rfl, htold]
    unfold cutFrom
    dsimp only [Lexeme.cut]
    rw [hlexeme, hbehind]
    rfl

/-- In no call for a token of a text is there a difference. -/
theorem stepToken_later (file text : String) (n : Nat) :
    ((ofText file text).later n).stepToken = ((ofText file text).later n).nextToken :=
  ((sound_ofText file text).later n).stepToken_eq

/-- The end of the stream is returned exactly if there is nothing behind the gap. -/
theorem isAtEnd_skipTrivia_iff (c : Cursor) :
    (c.skipTrivia #[]).2.isAtEnd = true ↔ c.nextToken.1.token.kind = .endOfStream := by
  have hgap : c.skipTrivia #[] = _ := Gap.goOn_eq .space #[] c.file c.source c.mark c.rest
  unfold nextToken
  rw [hgap]
  obtain ⟨opened, m, rest⟩ := Gap.space.skip c.mark c.rest
  cases rest with
  | nil => exact iff_of_true rfl rfl
  | cons first rest =>
    exact iff_of_false Bool.false_ne_true (Lexeme.read_ordinary c.file m first rest).kind_ne

end Main

end Cursor

end StackScript
