import StackScript.Proofs.Token.Places
import StackScript.Proofs.Token.Trivia

/-!
The tokens of a text are slices of it, in order, with gaps between them. What one call for a
token takes is proved of a cursor that stands somewhere in its text; that is preserved by every
call, so that the slices of all calls meet. Main statement: the calls tile every text, tell
where each token starts, and go on with the end of the stream once they have come to it.
-/

namespace StackScript

def between (source : List Char) (start stop : Nat) : List Char := (source.take stop).drop start

/-- What is found from a first character is never the end, and a comment that stays open is no
fault of its own. -/
structure Lexeme.Ordinary (l : Lexeme) : Prop where
  kind_ne : l.kind ≠ .endOfStream
  faults : ∀ d ∈ l.faults, d.fault ≠ .endInComment

namespace Lexeme

theorem Ordinary.bare {kind : TokenKind} (h : kind ≠ .endOfStream) (more : Nat)
    (literal : Option Value) : Ordinary { kind := kind, more := more, literal := literal } :=
  ⟨h, fun _ hd => by simp at hd⟩

theorem Ordinary.oneOrTwo {second : Char} {single double : TokenKind}
    (h : single ≠ .endOfStream) (h' : double ≠ .endOfStream) (cs : List Char) :
    (oneOrTwo second single double cs).Ordinary := by
  unfold Lexeme.oneOrTwo
  split
  · exact .bare h' _ _
  · exact .bare h _ _

theorem readString_ordinary (file : String) (start : Mark) (quote : Char) (m : Mark) (more : Nat)
    (decoded : List Char) {faults : Array Diagnostic} (cs : List Char)
    (h : ∀ d ∈ faults, d.fault ≠ .endInComment) :
    (readString file start quote m more decoded faults cs).Ordinary := by
  have hpush {d : Diagnostic} (hd : d.fault ≠ .endInComment) {faults : Array Diagnostic}
      (h : ∀ d ∈ faults, d.fault ≠ .endInComment) :
      ∀ d' ∈ faults.push d, d'.fault ≠ .endInComment := by
    intro d' hd'
    rcases Array.mem_push.1 hd' with hmem | rfl
    · exact h d' hmem
    · exact hd
  have hunclosed : (readString.unclosed file start).fault ≠ .endInComment := by
    rintro ⟨⟩
  have hfinish (more : Nat) (decoded : List Char) {faults : Array Diagnostic}
      (h : ∀ d ∈ faults, d.fault ≠ .endInComment) :
      (readString.finish more decoded faults).Ordinary := ⟨by rintro ⟨⟩, h⟩
  fun_induction readString file start quote m more decoded faults cs
  case case1 | case2 | case4 => exact hfinish _ _ (hpush hunclosed h)
  case case3 => exact hfinish _ _ h
  case case5 ih => exact ih h
  case case6 ih =>
    refine ih (hpush ?_ h)
    rintro ⟨⟩
  case case7 ih => exact ih h

theorem readNumber_ordinary (first : Char) (cs : List Char) : (readNumber first cs).Ordinary := by
  unfold readNumber
  dsimp only
  split
  · split
    · exact .bare (by decide) _ _
    · exact .bare (by decide) _ _
  · exact .bare (by decide) _ _

theorem readWord_ordinary (first : Char) (cs : List Char) : (readWord first cs).Ordinary := by
  refine .bare ?_ _ _
  cases hword : TokenKind.keyword? (String.ofList (first ::
      cs.takeWhile fun c => isLetter c || c.isDigit)) with
  | none =>
    rw [Option.getD_none]
    decide
  | some kind =>
    rw [Option.getD_some]
    rintro rfl
    exact absurd (List.mem_of_find?_eq_some hword) (by decide)

theorem read_ordinary (file : String) (m : Mark) (first : Char) (cs : List Char) :
    (read file m first cs).Ordinary := by
  have hnone : ∀ d ∈ (#[] : Array Diagnostic), d.fault ≠ .endInComment := fun _ hd => by
    simp at hd
  unfold read
  split
  all_goals first
    | exact .bare (by decide) _ _
    | exact .oneOrTwo (by decide) (by decide) _
    | exact readString_ordinary _ _ _ _ _ _ _ hnone
    | skip
  split
  · exact readNumber_ordinary _ _
  · split
    · exact readWord_ordinary _ _
    · refine ⟨by rintro ⟨⟩, fun d hd => ?_⟩
      rw [Array.mem_singleton.1 hd]
      rintro ⟨⟩

end Lexeme

/-- The text of this token lies from `start` to `stop`, in front of it a gap from `edge` on. -/
structure TokenAt (source : List Char) (edge start stop : Nat) (s : Scanned) : Prop where
  order : edge ≤ start ∧ start < stop ∧ stop ≤ source.length
  gap : Trivia (between source edge start) (source.drop start)
  starts : StartsToken (source.drop start)
  lexeme : s.token.lexeme = String.ofList (between source start stop)
  kind_ne : s.token.kind ≠ .endOfStream
  closed : ∀ d ∈ s.faults, d.fault ≠ .endInComment

/-- Nothing but a gap lies behind `edge`, and from `final` on a comment that stays open. -/
structure EndAt (file : String) (source : List Char) (edge final : Nat) (s : Scanned) : Prop where
  order : edge ≤ final ∧ final ≤ source.length
  gap : Trivia (between source edge final) (source.drop final)
  comment : final < source.length → IsOpenComment (source.drop final)
  kind : s.token.kind = .endOfStream
  lexeme : s.token.lexeme = ""
  faults : s.faults = if final < source.length then
    #[.error ((Place.behind (source.take final)).position file) .endInComment []] else #[]

namespace Cursor

/-- What is ahead of a cursor and where it stands agree with its text. -/
structure Sound (c : Cursor) : Prop where
  le : c.offset ≤ c.source.length
  mark : c.mark = (c.source.take c.offset).foldl Mark.after {}
  rest : c.rest = c.source.drop c.offset

/-- The cursor behind `front`, which lies ahead in front of `rest`. -/
def past (c : Cursor) (front rest : List Char) : Cursor :=
  { c with mark := front.foldl Mark.after c.mark, rest }

/-- Where the gap in front of the next token ends. -/
def tokenStart (c : Cursor) : Nat := (Gap.space.skip c.mark c.rest).2.1.offset

theorem sound_ofText (file text : String) : (ofText file text).Sound := ⟨Nat.zero_le _, rfl, rfl⟩

theorem offset_past (c : Cursor) (front rest : List Char) :
    (c.past front rest).offset = c.offset + front.length := Mark.offset_foldl _ _

section Sound

variable {c : Cursor} (h : c.Sound)

include h

theorem Sound.position : c.position = (Place.behind (c.source.take c.offset)).position c.file := by
  unfold Cursor.position
  rw [h.mark, Mark.position_foldl]

theorem Sound.take_past {front rest : List Char} (hrest : c.rest = front ++ rest) :
    c.source.take (c.past front rest).offset = c.source.take c.offset ++ front := by
  rw [offset_past, List.take_add, ← h.rest, hrest, List.take_left]

theorem Sound.past {front rest : List Char} (hrest : c.rest = front ++ rest) :
    (c.past front rest).Sound where
  le := by
    have hlength := congrArg List.length (h.rest.symm.trans hrest)
    have hle := h.le
    rw [List.length_drop, List.length_append] at hlength
    rw [offset_past]
    change _ ≤ c.source.length
    omega
  mark := by
    change front.foldl Mark.after c.mark = (c.source.take (c.past front rest).offset).foldl _ _
    rw [h.take_past hrest, List.foldl_append, ← h.mark]
  rest := by
    change rest = c.source.drop (c.past front rest).offset
    rw [offset_past, ← List.drop_drop, ← h.rest, hrest, List.drop_left]

theorem Sound.between_past {front rest : List Char} (hrest : c.rest = front ++ rest) :
    between c.source c.offset (c.past front rest).offset = front := by
  have hlength : (c.source.take c.offset).length = c.offset := by
    rw [List.length_take, Nat.min_eq_left h.le]
  unfold between
  rw [h.take_past hrest, List.drop_left' hlength]

theorem Sound.tokenAt {gap lexeme rest : List Char} (hrest : c.rest = gap ++ (lexeme ++ rest))
    (hgap : Trivia gap (lexeme ++ rest)) (hstarts : StartsToken (lexeme ++ rest))
    (hlexeme : lexeme ≠ []) {s : Scanned} (hs : s.token.lexeme = String.ofList lexeme)
    (hkind : s.token.kind ≠ .endOfStream) (hclosed : ∀ d ∈ s.faults, d.fault ≠ .endInComment) :
    TokenAt c.source c.offset (c.past gap (lexeme ++ rest)).offset
      ((c.past gap (lexeme ++ rest)).past lexeme rest).offset s := by
  have hbefore : (c.past gap (lexeme ++ rest)).Sound := h.past hrest
  have hahead : c.source.drop (c.past gap (lexeme ++ rest)).offset = lexeme ++ rest :=
    hbefore.rest.symm
  refine ⟨⟨?_, ?_, (hbefore.past rfl).le⟩, ?_, ?_, ?_, hkind, hclosed⟩
  · rw [offset_past]
    exact Nat.le_add_right _ _
  · rw [offset_past _ lexeme]
    exact Nat.lt_add_of_pos_right (List.length_pos_iff.2 hlexeme)
  · rw [h.between_past hrest, hahead]
    exact hgap
  · rw [hahead]
    exact hstarts
  · rw [hs]
    exact congrArg String.ofList (hbefore.between_past rfl).symm

theorem Sound.endAt {gap comment : List Char} (hrest : c.rest = gap ++ comment)
    (hgap : Trivia gap comment) (hcomment : comment ≠ [] → IsOpenComment comment) {s : Scanned}
    (hkind : s.token.kind = .endOfStream) (hlexeme : s.token.lexeme = "")
    (hfaults : s.faults = if comment = [] then #[] else
      #[.error (c.past gap comment).position .endInComment []]) :
    EndAt c.file c.source c.offset (c.past gap comment).offset s := by
  have hbefore : (c.past gap comment).Sound := h.past hrest
  have hahead : c.source.drop (c.past gap comment).offset = comment := hbefore.rest.symm
  have hopen : (c.past gap comment).offset < c.source.length ↔ comment ≠ [] := by
    rw [← Nat.not_le, ← List.drop_eq_nil_iff, hahead]
  refine ⟨⟨?_, hbefore.le⟩, ?_, ?_, hkind, hlexeme, ?_⟩
  · rw [offset_past]
    exact Nat.le_add_right _ _
  · rw [h.between_past hrest, hahead]
    exact hgap
  · rw [hopen, hahead]
    exact hcomment
  · by_cases hnil : comment = []
    · rw [hfaults, if_pos hnil, if_neg (by rw [hopen]; exact not_not_intro hnil)]
    · rw [hfaults, if_neg hnil, if_pos (hopen.2 hnil), hbefore.position]
      rfl

end Sound

/-- A call for a token leaves the cursor sound, behind a token or at the end of the text. -/
structure Steps (c : Cursor) : Prop where
  sound : c.nextToken.2.Sound
  position : c.nextToken.1.token.position =
    (Place.behind (c.source.take c.tokenStart)).position c.file
  found : TokenAt c.source c.offset c.tokenStart c.nextToken.2.offset c.nextToken.1 ∨
    (c.tokenStart = c.source.length ∧ c.nextToken.2.offset = c.source.length ∧
      ∃ final, EndAt c.file c.source c.offset final c.nextToken.1)

theorem steps_token {c : Cursor} (h : c.Sound) {gap rest : List Char} {first : Char}
    (hgap : Trivia gap (first :: rest)) (hstarts : StartsToken (first :: rest))
    (hrest : c.rest = gap ++ first :: rest)
    (hskip : Gap.space.skip c.mark c.rest = (none, gap.foldl Mark.after c.mark, first :: rest)) :
    c.Steps := by
  have hfound := Lexeme.read_ordinary c.file (gap.foldl Mark.after c.mark) first rest
  generalize hread : Lexeme.read c.file (gap.foldl Mark.after c.mark) first rest = found at hfound
  have hsplit : first :: rest = (first :: rest.take found.more) ++ rest.drop found.more := by
    rw [List.cons_append, List.take_append_drop]
  have hbefore : (c.past gap (first :: rest)).Sound := h.past hrest
  have hstart : c.tokenStart = (c.past gap (first :: rest)).offset := by
    unfold tokenStart
    rw [hskip]
    rfl
  have hnext : c.nextToken = (⟨⟨found.kind, String.ofList (first :: rest.take found.more),
      found.literal, (c.past gap (first :: rest)).position⟩, found.faults⟩,
      (c.past gap (first :: rest)).past (first :: rest.take found.more)
        (rest.drop found.more)) := by
    unfold nextToken
    rw [hskip]
    dsimp only
    -- no fault of the gap stands before those of the token
    rw [hread, Array.empty_append]
    rfl
  refine ⟨?_, ?_, .inl ?_⟩
  · rw [hnext]
    exact hbefore.past hsplit
  · rw [hnext, hstart]
    exact hbefore.position
  · rw [hnext, hstart]
    rw [hsplit] at hgap hstarts hrest ⊢
    exact h.tokenAt hrest hgap hstarts (List.cons_ne_nil _ _) rfl hfound.kind_ne hfound.faults

theorem steps_end {c : Cursor} (h : c.Sound) {gap comment : List Char}
    (hgap : Trivia gap comment) (hcomment : comment ≠ [] → IsOpenComment comment)
    (hrest : c.rest = gap ++ comment)
    (hskip : Gap.space.skip c.mark c.rest =
      (if comment = [] then none else some (gap.foldl Mark.after c.mark),
        (gap ++ comment).foldl Mark.after c.mark, [])) :
    c.Steps := by
  -- the cursor goes past the gap and past a comment that stays open
  have hrest' : c.rest = (gap ++ comment) ++ [] := by
    rw [hrest, List.append_nil]
  have hbehind : (c.past (gap ++ comment) []).Sound := h.past hrest'
  have hend : (c.past (gap ++ comment) []).offset = c.source.length :=
    Nat.le_antisymm hbehind.le (List.drop_eq_nil_iff.1 hbehind.rest.symm)
  have hstart : c.tokenStart = c.source.length := by
    rw [← hend]
    unfold tokenStart
    rw [hskip]
    rfl
  have hnext : c.nextToken = (⟨⟨.endOfStream, "", none, (c.past (gap ++ comment) []).position⟩,
      if comment = [] then #[] else
        #[.error (c.past gap comment).position .endInComment []]⟩,
      c.past (gap ++ comment) []) := by
    unfold nextToken
    rw [hskip]
    by_cases hnil : comment = []
    · simp only [if_pos hnil]
      rfl
    · simp only [if_neg hnil]
      rfl
  refine ⟨?_, ?_, .inr ⟨hstart, ?_, (c.past gap comment).offset, ?_⟩⟩
  · rw [hnext]
    exact hbehind
  · rw [hnext, hstart, ← hend]
    exact hbehind.position
  · rw [hnext]
    exact hend
  · rw [hnext]
    exact h.endAt hrest hgap hcomment rfl rfl rfl

theorem Sound.steps {c : Cursor} (h : c.Sound) : c.Steps := by
  have hskipped := Gap.skipped_space c.mark c.rest
  generalize hrest : c.rest = ahead at hskipped
  generalize hskip : Gap.space.skip c.mark ahead = result at hskipped
  cases hskipped with
  | @whole gap rest hgap hstarts =>
    cases rest with
    | nil => exact steps_end h hgap (absurd rfl) hrest (by rw [hrest, hskip, List.append_nil]; rfl)
    | cons first rest => exact steps_token h hgap hstarts hrest (by rw [hrest, hskip])
  | @unclosed gap comment hgap hcomment =>
    have hne : comment ≠ [] := by
      rintro rfl
      cases hcomment.opens
    exact steps_end h hgap (fun _ => hcomment) hrest (by rw [hrest, hskip, if_neg hne])

section Calls

/-- The cursor behind this many tokens. -/
def later (c : Cursor) : Nat → Cursor
  | 0 => c
  | n + 1 => (c.later n).nextToken.2

/-- What the call for a token with this number returns. -/
def call (c : Cursor) (n : Nat) : Scanned := (c.later n).nextToken.1

theorem Sound.later {c : Cursor} (h : c.Sound) (n : Nat) : (c.later n).Sound := by
  induction n with
  | zero => exact h
  | succ n ih => exact ih.steps.sound

theorem later_text (c : Cursor) (n : Nat) :
    (c.later n).source = c.source ∧ (c.later n).file = c.file := by
  have hnext (c : Cursor) : c.nextToken.2.source = c.source ∧ c.nextToken.2.file = c.file := by
    unfold nextToken
    dsimp only
    split <;> exact ⟨rfl, rfl⟩
  induction n with
  | zero => exact ⟨rfl, rfl⟩
  | succ n ih => exact ⟨(hnext _).1.trans ih.1, (hnext _).2.trans ih.2⟩

theorem later_nextToken (c : Cursor) (n : Nat) : c.nextToken.2.later n = c.later (n + 1) := by
  induction n with
  | zero => rfl
  | succ n ih => exact congrArg (fun c => c.nextToken.2) ih

/-- After some calls the end of the stream is returned. -/
theorem exists_end (c : Cursor) : ∃ count, (∀ n < count, (c.call n).token.kind ≠ .endOfStream) ∧
    (c.call count).token.kind = .endOfStream := by
  induction hlength : c.rest.length using Nat.strongRecOn generalizing c with
  | ind length ih =>
    subst hlength
    by_cases hkind : (c.call 0).token.kind = .endOfStream
    · exact ⟨0, fun n hn => absurd hn (Nat.not_lt_zero n), hkind⟩
    · obtain ⟨count, hbefore, hend⟩ := ih _ (c.length_nextToken hkind) c.nextToken.2 rfl
      simp only [call, later_nextToken] at hbefore hend
      refine ⟨count + 1, fun n hn => ?_, hend⟩
      cases n with
      | zero => exact hkind
      | succ n => exact hbefore n (Nat.lt_of_succ_lt_succ hn)

variable {c : Cursor} (h : c.Sound)

include h

theorem Sound.call_position (n : Nat) : (c.call n).token.position =
    (Place.behind (c.source.take (c.later n).tokenStart)).position c.file := by
  have hposition := (h.later n).steps.position
  rwa [(c.later_text n).1, (c.later_text n).2] at hposition

theorem Sound.token_call {n : Nat} (hkind : (c.call n).token.kind ≠ .endOfStream) :
    TokenAt c.source (c.later n).offset (c.later n).tokenStart (c.later (n + 1)).offset
      (c.call n) := by
  rcases (h.later n).steps.found with htoken | ⟨-, -, final, hend⟩
  · rwa [(c.later_text n).1] at htoken
  · exact absurd hend.kind hkind

theorem Sound.end_call {n : Nat} (hkind : (c.call n).token.kind = .endOfStream) :
    (c.later n).tokenStart = c.source.length ∧ (c.later (n + 1)).offset = c.source.length ∧
      ∃ final, EndAt c.file c.source (c.later n).offset final (c.call n) := by
  rcases (h.later n).steps.found with htoken | hend
  · exact absurd hkind htoken.kind_ne
  · rwa [(c.later_text n).1, (c.later_text n).2] at hend

/-- Behind the end of the stream there is nothing, and nothing is wrong there. -/
theorem Sound.call_behind {n : Nat} (hend : (c.later n).offset = c.source.length) :
    (c.call n).token.kind = .endOfStream ∧ (c.call n).faults = #[] := by
  have hkind : (c.call n).token.kind = .endOfStream := by
    by_contra hkind
    -- a token would have to end behind the end of the text
    have horder := (h.token_call hkind).order
    omega
  obtain ⟨-, -, final, hfinal⟩ := h.end_call hkind
  refine ⟨hkind, ?_⟩
  rw [hfinal.faults, if_neg]
  have horder := hfinal.order
  omega

theorem Sound.call_over {count n : Nat} (hcount : (c.call count).token.kind = .endOfStream)
    (hn : count < n) : (c.later n).offset = c.source.length := by
  induction hn with
  | refl => exact (h.end_call hcount).2.1
  | step _ ih => exact (h.end_call (h.call_behind ih).1).2.1

theorem Sound.call_from {count n : Nat} (hcount : (c.call count).token.kind = .endOfStream)
    (hn : count ≤ n) : (c.call n).token.kind = .endOfStream := by
  rcases Nat.eq_or_lt_of_le hn with rfl | hlt
  · exact hcount
  · exact (h.call_behind (h.call_over hcount hlt)).1

theorem Sound.tokenStart_lt {count i j : Nat}
    (hbefore : ∀ n < count, (c.call n).token.kind ≠ .endOfStream)
    (hend : (c.call count).token.kind = .endOfStream) (hij : i < j) (hj : j ≤ count) :
    (c.later i).tokenStart < (c.later j).tokenStart := by
  have hone (n : Nat) (hn : n < count) :
      (c.later n).tokenStart < (c.later (n + 1)).tokenStart := by
    have horder := (h.token_call (hbefore n hn)).order
    rcases Nat.lt_or_ge (n + 1) count with hlt | hge
    · have hnext := (h.token_call (hbefore (n + 1) hlt)).order
      omega
    · obtain rfl : n + 1 = count := Nat.le_antisymm hn hge
      have hlast := (h.end_call hend).1
      omega
  induction hij with
  | refl => exact hone i hj
  | step hij ih => exact Nat.lt_trans (ih (Nat.le_of_succ_le hj)) (hone _ hj)

theorem Sound.tokenStart_le (n : Nat) : (c.later n).tokenStart ≤ c.source.length := by
  by_cases hkind : (c.call n).token.kind = .endOfStream
  · exact Nat.le_of_eq (h.end_call hkind).1
  · have horder := (h.token_call hkind).order
    omega

theorem Sound.unclosed_iff {count final : Nat}
    (hbefore : ∀ n < count, (c.call n).token.kind ≠ .endOfStream)
    (hstop : EndAt c.file c.source (c.later count).offset final (c.call count)) :
    (∃ n, ∃ d ∈ (c.call n).faults, d.fault = .endInComment) ↔ final < c.source.length := by
  constructor
  · rintro ⟨n, d, hd, hfault⟩
    rcases Nat.lt_trichotomy n count with hlt | rfl | hgt
    · exact absurd hfault ((h.token_call (hbefore n hlt)).closed d hd)
    · by_contra hfinal
      rw [hstop.faults, if_neg hfinal] at hd
      simp at hd
    · rw [(h.call_behind (h.call_over hstop.kind hgt)).2] at hd
      simp at hd
  · intro hfinal
    refine ⟨count, .error ((Place.behind (c.source.take final)).position c.file)
      .endInComment [], ?_, rfl⟩
    rw [hstop.faults, if_pos hfinal]
    exact Array.mem_singleton.2 rfl

end Calls

end Cursor

/-- Calls for tokens take apart the text that they read. Of the first `count` calls, each finds
a gap from one edge on and the text of a token from its start to the next edge; the last gap
goes up to `final`. Lines and columns are told in 32 bits, which is enough for all of them
unless the text has some 2^32 characters. -/
structure Tiling (file : String) (source : List Char) (call : Nat → Scanned) (count : Nat)
    (edge start : Nat → Nat) (final : Nat) : Prop where
  first : edge 0 = 0
  token : ∀ n < count, TokenAt source (edge n) (start n) (edge (n + 1)) (call n)
  stop : EndAt file source (edge count) final (call count)
  ended : ∀ n, count ≤ n → start n = source.length ∧
    (call n).token.kind = .endOfStream ∧ (call n).token.lexeme = ""
  unclosed : (∃ n, ∃ d ∈ (call n).faults, d.fault = .endInComment) ↔ final < source.length
  located : ∀ n, (call n).token.position = (Place.behind (source.take (start n))).position file
  increasing : ∀ i j, i < j → j ≤ count →
    (Place.behind (source.take (start i))).Before (Place.behind (source.take (start j)))
  numbers : source.length + 1 < 0x100000000 → ∀ n,
    (call n).token.position.line.toNat = (Place.behind (source.take (start n))).line ∧
      (call n).token.position.column.toNat = (Place.behind (source.take (start n))).column
  inOrder : source.length + 1 < 0x100000000 → ∀ i j, i < j → j ≤ count →
    (call i).token.position.Before (call j).token.position

/-- So the tokens and the gaps make up any text whatever, and each token tells where it starts. -/
theorem Cursor.ofText_tiling (file text : String) : ∃ count edge start final,
    Tiling file text.toList (ofText file text).call count edge start final := by
  have h := sound_ofText file text
  obtain ⟨count, hbefore, hend⟩ := (ofText file text).exists_end
  obtain ⟨hlast, -, final, hstop⟩ := h.end_call hend
  have hincreasing (i j : Nat) (hij : i < j) (hj : j ≤ count) :=
    Place.before_take (h.tokenStart_lt hbefore hend hij hj) (h.tokenStart_le j)
  have hshort (hbound : text.toList.length + 1 < 0x100000000) (n : Nat) :
      (text.toList.take n).length + 1 < 0x100000000 :=
    Nat.lt_of_le_of_lt (Nat.succ_le_succ (List.length_take_le' _ _)) hbound
  refine ⟨count, fun n => ((ofText file text).later n).offset,
    fun n => ((ofText file text).later n).tokenStart, final, rfl, fun n hn => ?_, hstop,
    fun n hn => ?_, h.unclosed_iff hbefore hstop, h.call_position, hincreasing, ?_, ?_⟩
  · exact h.token_call (hbefore n hn)
  · have hkind := h.call_from hend hn
    obtain ⟨hstart, -, final, hfinal⟩ := h.end_call hkind
    exact ⟨hstart, hkind, hfinal.lexeme⟩
  · intro hbound n
    rw [h.call_position]
    exact Place.toNat_position (hshort hbound _) file
  · intro hbound i j hij hj
    rw [h.call_position, h.call_position]
    exact (hincreasing i j hij hj).position (hshort hbound _) (hshort hbound _) file

end StackScript
