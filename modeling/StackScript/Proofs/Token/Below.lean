import StackScript.Proofs.Token.Respacing
import StackScript.Proofs.Token.Tiling
import StackScript.Proofs.Tree.Moved

/-!
Tokens further down a text. A text that begins on the line below another one has the tokens
that it has alone, as many lines further down, and behind a text with nothing wrong they follow
its tokens: the newline between them ends a comment at most, and nothing that was read in front
of it is still under way.
-/

namespace StackScript

/-- The same column, so many lines further down. -/
def Position.below (lines : Nat) (p : Position) : Position :=
  { p with line := p.line + UInt32.ofNat lines }

/-- The same place of a text that has something in front of it, with so many lines. -/
def Mark.below (offset lines : Nat) (m : Mark) : Mark :=
  ⟨m.offset + offset, m.line + UInt32.ofNat lines, m.column⟩

def Scanned.moved (place : Position → Position) (t : Scanned) : Scanned :=
  ⟨t.token.moved place, t.faults.map (Diagnostic.moved place)⟩

theorem Scanned.moved_plain (place : Position → Position) (t : Token) :
    ({ token := t } : Scanned).moved place = { token := t.moved place } := by
  rw [moved, Array.map_empty]

theorem Scanned.isEmpty_moved (place : Position → Position) (t : Scanned) :
    (t.moved place).faults.isEmpty = t.faults.isEmpty := by
  rw [moved, Array.isEmpty, Array.isEmpty, Array.size_map]

def TokenStream.moved (place : Position → Position) (tokens : TokenStream) : TokenStream :=
  ⟨tokens.ahead.map (Scanned.moved place), tokens.stop.moved place⟩

section Reading

variable (offset lines : Nat)

def Gap.below : Gap → Gap
  | .block start outer => .block (start.below offset lines) outer
  | gap => gap

def Lexeme.below (l : Lexeme) : Lexeme :=
  { l with faults := l.faults.map (Diagnostic.moved (Position.below lines)) }

theorem Mark.after_below (m : Mark) (c : Char) :
    (m.below offset lines).after c = (m.after c).below offset lines := by
  have hoffset : m.offset + offset + 1 = m.offset + 1 + offset := by omega
  have hline : m.line + UInt32.ofNat lines + 1 = m.line + 1 + UInt32.ofNat lines := by ac_rfl
  unfold after
  by_cases hc : c = '\n'
  · rw [if_pos hc, if_pos hc]
    simp only [below, hoffset, hline]
  · rw [if_neg hc, if_neg hc]
    simp only [below, hoffset]

theorem Mark.foldl_below (m : Mark) (cs : List Char) :
    cs.foldl after (m.below offset lines) = (cs.foldl after m).below offset lines := by
  induction cs generalizing m with
  | nil => rfl
  | cons c cs ih => rw [List.foldl_cons, List.foldl_cons, after_below, ih]

theorem Gap.skip_below (gap : Gap) (m : Mark) (cs : List Char) :
    (gap.below offset lines).skip (m.below offset lines) cs =
      ((gap.skip m cs).1.map (Mark.below offset lines), (gap.skip m cs).2.1.below offset lines,
        (gap.skip m cs).2.2) := by
  fun_induction Gap.skip gap m cs with
  | case1 gap m => cases gap <;> rfl
  | case2 m cs ih | case3 m cs ih | case7 m start outer cs ih =>
    rw [← Mark.after_below, ← Mark.after_below] at ih
    exact ih
  | case4 m c cs hline hblock hspace ih =>
    rw [← Mark.after_below] at ih
    change space.skip (m.below offset lines) (c :: cs) = _
    rw [Gap.skip.eq_4 _ _ _ hline hblock, if_pos hspace]
    exact ih
  | case5 m c cs hline hblock hspace =>
    change space.skip (m.below offset lines) (c :: cs) = _
    rw [Gap.skip.eq_4 _ _ _ hline hblock, if_neg hspace]
    rfl
  | case6 m c cs ih =>
    have hgap : below offset lines (if c = '\n' then space else line) =
        if c = '\n' then space else line := by split <;> rfl
    rw [← Mark.after_below, hgap] at ih
    exact ih
  | case8 m start outer cs ih =>
    have hgap : (closeOne start outer).below offset lines =
        closeOne (start.below offset lines) outer := by cases outer <;> rfl
    rw [← Mark.after_below, ← Mark.after_below, hgap] at ih
    exact ih
  | case9 m start outer c cs hopen hclose ih =>
    rw [← Mark.after_below] at ih
    rw [Gap.below, Gap.skip.eq_8 _ _ _ _ _ hopen hclose]
    exact ih

theorem Lexeme.readString_below (file : String) (start : Mark) (quote : Char) (m : Mark)
    (more : Nat) (decoded : List Char) (faults : Array Diagnostic) (cs : List Char) :
    readString file (start.below offset lines) quote (m.below offset lines) more decoded
        (faults.map (Diagnostic.moved (Position.below lines))) cs =
      (readString file start quote m more decoded faults cs).below lines := by
  have hunclosed : readString.unclosed file (start.below offset lines) =
      (readString.unclosed file start).moved (Position.below lines) := rfl
  have hpush (more : Nat) (decoded : List Char) (faults : Array Diagnostic) (d : Diagnostic) :
      readString.finish more decoded ((faults.map (Diagnostic.moved (Position.below lines))).push
          (d.moved (Position.below lines))) =
        (readString.finish more decoded (faults.push d)).below lines := by
    rw [← Array.map_push]
    rfl
  fun_induction readString file start quote m more decoded faults cs with
  | case1 m more decoded faults =>
    conv => lhs; unfold readString
    rw [hunclosed, hpush]
  | case2 m more decoded faults c cs hbreak =>
    conv => lhs; unfold readString
    rw [if_pos hbreak, hunclosed, hpush]
  | case3 m more decoded faults cs hbreak =>
    rw [readString_quote _ _ _ _ _ _ hbreak]
    rfl
  | case4 m more decoded faults hbreak hquote =>
    conv => lhs; unfold readString
    rw [if_neg hbreak, if_neg hquote, if_pos rfl, hunclosed, hpush]
  | case5 m more decoded faults e cs d hd hbreak hquote behind ih =>
    rw [readString_escape _ _ _ _ _ _ hquote hd, Mark.after_below, Mark.after_below]
    exact ih
  | case6 m more decoded faults e cs hd fault hbreak hquote behind ih =>
    conv => lhs; unfold readString
    rw [if_neg hbreak, if_neg hquote, if_pos rfl]
    dsimp only
    rw [hd, Mark.after_below, Mark.after_below, ← ih, Array.map_push]
    rfl
  | case7 m more decoded faults c cs hbreak hquote hescape ih =>
    rw [readString_plain _ _ _ _ _ _ hbreak hquote hescape, Mark.after_below]
    exact ih

theorem Lexeme.below_of_quiet {l : Lexeme} (h : l.faults = #[]) : l.below lines = l := by
  obtain ⟨kind, more, literal, faults⟩ := l
  dsimp only at h
  subst h
  simp [below]

theorem Lexeme.read_below (file : String) (m : Mark) (first : Char) (cs : List Char) :
    read file (m.below offset lines) first cs = (read file m first cs).below lines := by
  have hquiet {l : Lexeme} (h : l.faults = #[]) : l = l.below lines :=
    (below_of_quiet lines h).symm
  have honeOrTwo (second : Char) (single double : TokenKind) :
      (oneOrTwo second single double cs).faults = #[] := by
    unfold oneOrTwo
    split <;> rfl
  have hstring := readString_below offset lines file m first (m.after first) 0 [] #[] cs
  rw [Array.map_empty, ← Mark.after_below] at hstring
  unfold read
  split
  case h_23 | h_24 => exact hstring
  case h_25 =>
    split
    · refine hquiet ?_
      unfold readNumber
      dsimp only
      split
      · split <;> rfl
      · rfl
    · split
      · exact hquiet rfl
      · rw [below]
        simp only [List.map_toArray, List.map_cons, List.map_nil]
        rfl
  all_goals first
    | exact hquiet rfl
    | exact hquiet (honeOrTwo _ _ _)

end Reading

/-- The same text ahead, further down a file. -/
structure Cursor.Below (offset lines : Nat) (c c' : Cursor) : Prop where
  file : c'.file = c.file
  mark : c'.mark = c.mark.below offset lines
  rest : c'.rest = c.rest

section Scanning

variable {offset lines : Nat}

theorem Cursor.Below.nextToken {c c' : Cursor} (h : c.Below offset lines c') :
    c'.nextToken.1 = c.nextToken.1.moved (Position.below lines) ∧
      c.nextToken.2.Below offset lines c'.nextToken.2 := by
  have hskip : Gap.space.skip (c.mark.below offset lines) c.rest = _ :=
    Gap.skip_below offset lines .space c.mark c.rest
  unfold Cursor.nextToken
  rw [h.file, h.mark, h.rest, hskip]
  generalize Gap.space.skip c.mark c.rest = gap
  obtain ⟨opened, m, rest⟩ := gap
  have hone (start : Mark) : #[Diagnostic.error ((start.below offset lines).position c.file)
      .endInComment []] = #[Diagnostic.error (start.position c.file) .endInComment []].map
        (Diagnostic.moved (Position.below lines)) := by
    simp only [List.map_toArray, List.map_cons, List.map_nil]
    rfl
  cases rest with
  | nil =>
    refine ⟨?_, rfl, rfl, rfl⟩
    cases opened with
    | none => exact congrArg (Scanned.mk _) Array.map_empty.symm
    | some start => exact congrArg (Scanned.mk _) (hone start)
  | cons first rest =>
    dsimp only
    rw [Lexeme.read_below]
    refine ⟨?_, rfl, Mark.foldl_below offset lines m _, rfl⟩
    rw [Scanned.moved, Array.map_append]
    cases opened with
    | none => rw [Array.map_empty]; rfl
    | some start => rw [← hone start]; rfl

theorem TokenStream.scan_below (before : Array Scanned) (c : Cursor) :
    ∀ c', c.Below offset lines c' →
      scan (before.map (Scanned.moved (Position.below lines))) c' =
        (scan before c).moved (Position.below lines) := by
  fun_induction scan before c with
  | case1 before c next hend =>
    intro c' h
    obtain ⟨htoken, -⟩ := h.nextToken
    have hend' : c'.nextToken.1.token.kind = .endOfStream := by
      rw [htoken]
      exact hend
    rw [scan, if_pos hend', htoken, Array.toList_map]
    rfl
  | case2 before c next hgo ih =>
    intro c' h
    obtain ⟨htoken, hbelow⟩ := h.nextToken
    have hgo' : c'.nextToken.1.token.kind ≠ .endOfStream := by
      rw [htoken]
      exact hgo
    rw [scan, if_neg hgo', htoken, ← Array.map_push]
    exact ih _ hbelow

theorem TokenStream.scan_append (before : Array Scanned) (c : Cursor) :
    scan before c = ⟨before.toList ++ (scan #[] c).ahead, (scan #[] c).stop⟩ := by
  have hmore (earlier before : Array Scanned) (c : Cursor) : scan (earlier ++ before) c =
      ⟨earlier.toList ++ (scan before c).ahead, (scan before c).stop⟩ := by
    fun_induction scan before c with
    | case1 before c next hend => rw [scan, if_pos hend, Array.toList_append]
    | case2 before c next hgo ih => rw [scan, if_neg hgo, ← Array.append_push, ih]
  have hone := hmore before #[] c
  rwa [Array.append_empty] at hone

end Scanning

section Above

theorem Trivia.append_line {gap rest : List Char} (h : Trivia gap rest) (more : List Char) :
    Trivia gap (rest ++ '\n' :: more) := by
  induction h with
  | none rest => exact .none _
  | space hspace _ ih => exact .space hspace ih
  | @line body gap rest hbody hend _ ih =>
    refine .line hbody (fun c hc => ?_) ih
    rw [← List.append_assoc] at hc
    cases hahead : gap ++ rest with
    | nil =>
      rw [hahead] at hc
      exact (Option.some.inj hc).symm
    | cons d ds =>
      rw [hahead] at hc hend
      exact hend c hc
  | block hcomment _ ih => exact .block hcomment ih

/-- The same cursor in a text that goes on with another line. -/
structure Cursor.Above (more : List Char) (c c' : Cursor) : Prop where
  file : c'.file = c.file
  mark : c'.mark = c.mark
  rest : c'.rest = c.rest ++ '\n' :: more

theorem Trivia.append {gap gap' rest : List Char} (h : Trivia gap (gap' ++ rest))
    (h' : Trivia gap' rest) : Trivia (gap ++ gap') rest := by
  generalize hahead : gap' ++ rest = ahead at h
  induction h with
  | none => exact h'
  | space hspace _ ih => exact .space hspace (ih hahead)
  | @line body gap ahead hbody hend _ ih =>
    subst hahead
    rw [List.cons_append, List.cons_append, List.append_assoc]
    refine .line hbody ?_ (ih rfl)
    rwa [List.append_assoc]
  | block hcomment _ ih =>
    rw [List.append_assoc]
    exact .block hcomment (ih hahead)

namespace Cursor

theorem nextToken_past {c : Cursor} {gap more : List Char} (h : Trivia gap more)
    (hc : c.rest = gap ++ more) : (c.past gap more).nextToken = c.nextToken := by
  unfold nextToken
  rw [hc, h.skip]
  rfl

/-- In front of the end of a text with nothing wrong there is a gap. -/
theorem trivia_of_end {c : Cursor} (hfaults : c.nextToken.1.faults = #[])
    (hkind : c.nextToken.1.token.kind = .endOfStream) : Trivia c.rest [] := by
  have hskipped := Gap.skipped_space c.mark c.rest
  revert hfaults hkind
  unfold nextToken
  generalize c.rest = ahead at hskipped ⊢
  generalize Gap.space.skip c.mark ahead = result at hskipped ⊢
  cases hskipped with
  | unclosed =>
    intro hfaults
    simp at hfaults
  | @whole gap rest hgap hstarts =>
    cases rest with
    | nil =>
      intro _ _
      rwa [List.append_nil]
    | cons first rest =>
      intro _ hkind
      exact absurd hkind (Lexeme.read_ordinary _ _ _ _).kind_ne

variable {more : List Char} {c c' : Cursor}

/-- A token with nothing wrong stays the same if another line follows the text. -/
theorem Above.nextToken (h : c.Above more c') (hfaults : c.nextToken.1.faults = #[])
    (hkind : c.nextToken.1.token.kind ≠ .endOfStream) :
    c'.nextToken.1 = c.nextToken.1 ∧ c.nextToken.2.Above more c'.nextToken.2 ∧
      c'.nextToken.2.past (c.nextToken.2.rest ++ ['\n']) more =
        c'.past (c.rest ++ ['\n']) more := by
  obtain ⟨gap, first, front, after, hrest, hgap, -, -, htoken⟩ := c.exists_isToken hfaults hkind
  generalize c.nextToken.1.token.kind = kind at htoken
  generalize c.nextToken.1.token.literal = literal at htoken
  have hold : BreaksOff after after := by
    rw [← List.append_nil after]
    exact (BreaksOff.ended []).append_left after
  have hnew : BreaksOff (after ++ '\n' :: more) after := .append_space (by decide) after more
  have hrest' : c'.rest = gap ++ first :: (front ++ (after ++ '\n' :: more)) := by
    simp [h.rest, hrest]
  have hgap' : Trivia gap (first :: (front ++ (after ++ '\n' :: more))) := by
    have happend := hgap.append_line more
    rwa [List.cons_append, List.append_assoc] at happend
  have hnext := (htoken after hold).nextToken_behind hgap hrest
  have hnext' := (htoken _ hnew).nextToken_behind hgap' hrest'
  rw [hnext, hnext', h.file, h.mark]
  refine ⟨rfl, ⟨rfl, rfl, rfl⟩, ?_⟩
  unfold past
  dsimp only
  rw [h.file, h.mark, hrest, ← List.foldl_append]
  simp

end Cursor

/-- What is scanned of the lines above is scanned again, and then what stands below them. -/
theorem TokenStream.scan_above (more : List Char) (before : Array Scanned) (c : Cursor) :
    ∀ c', c.Above more c' → (scan before c).faults = [] →
      scan before c' =
        scan (scan before c).ahead.toArray (c'.past (c.rest ++ ['\n']) more) := by
  fun_induction scan before c with
  | case1 before c next hend =>
    intro c' h hquiet
    have hfaults : c.nextToken.1.faults = #[] := (faults_eq_nil_iff.1 hquiet).2
    have hgap : Trivia (c.rest ++ ['\n']) more := by
      refine Trivia.append ?_ (.space (by simp) (.none more))
      exact (Cursor.trivia_of_end hfaults hend).append_line more
    have hnext := Cursor.nextToken_past (c := c') hgap (by rw [h.rest, List.append_cons])
    rw [Array.toArray_toList, scan.eq_def before c', scan.eq_def before (c'.past _ more), hnext]
  | case2 before c next hgo ih =>
    intro c' h hquiet
    have hmem : next.1 ∈ (scan (before.push next.1) next.2).ahead := by
      rw [scan_append]
      simp
    have hfaults : c.nextToken.1.faults = #[] := (faults_eq_nil_iff.1 hquiet).1 _ hmem
    obtain ⟨htoken, habove, hpast⟩ := h.nextToken hfaults hgo
    have hgo' : c'.nextToken.1.token.kind ≠ .endOfStream := by
      rw [htoken]
      exact hgo
    rw [scan, if_neg hgo', htoken, ← hpast]
    exact ih _ habove hquiet

/-- A text that another one follows on the next line is that many lines long. -/
theorem Mark.foldl_line (cs : List Char) :
    (cs ++ ['\n']).foldl Mark.after {} = Mark.below (cs.length + 1) (cs.count '\n' + 1) {} := by
  have hoffset := Mark.offset_foldl {} (cs ++ ['\n'])
  have hposition := Mark.position_foldl (cs ++ ['\n']) ""
  rw [Place.behind_newline] at hposition
  generalize (cs ++ ['\n']).foldl Mark.after {} = m at hoffset hposition
  obtain ⟨offset, line, column⟩ := m
  obtain ⟨-, rfl, rfl⟩ := Position.mk.inj hposition
  obtain rfl : offset = 0 + (cs ++ ['\n']).length := hoffset
  simp only [Mark.below, Place.behind, List.length_append, List.length_singleton, Nat.add_assoc,
    UInt32.ofNat_add]
  rfl

/-- How many lines further down a text stands that begins on the line below another one. -/
def linesOf (text : String) : Nat := text.toList.count '\n' + 1

/-- A text with nothing wrong and another one below it have the tokens of the one and, further
down, the tokens of the other. -/
theorem TokenStream.ofText_below {file above : String} (h : (ofText file above).faults = [])
    (below : String) :
    ofText file (above ++ "\n" ++ below) =
      ⟨(ofText file above).ahead ++
          ((ofText file below).moved (Position.below (linesOf above))).ahead,
        ((ofText file below).moved (Position.below (linesOf above))).stop⟩ := by
  let last := (Cursor.ofText file (above ++ "\n" ++ below)).past (above.toList ++ ['\n'])
    below.toList
  have habove : (Cursor.ofText file above).Above below.toList
      (.ofText file (above ++ "\n" ++ below)) := by
    refine ⟨rfl, rfl, ?_⟩
    change (above ++ "\n" ++ below).toList = above.toList ++ '\n' :: below.toList
    rw [String.toList_append, String.toList_append, List.append_assoc]
    rfl
  have hbelow : (Cursor.ofText file below).Below (above.toList.length + 1) (linesOf above) last :=
    ⟨rfl, Mark.foldl_line above.toList, rfl⟩
  have hscan := scan_below #[] _ last hbelow
  rw [Array.map_empty] at hscan
  unfold ofText ofCursor
  rw [scan_above below.toList #[] _ _ habove h, scan_append]
  change (⟨_ ++ (scan #[] last).ahead, (scan #[] last).stop⟩ : TokenStream) = _
  rw [hscan, List.toList_toArray]

end Above

end StackScript
