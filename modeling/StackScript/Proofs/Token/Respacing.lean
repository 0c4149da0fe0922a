import StackScript.Proofs.Grammar.Acceptance
import StackScript.Proofs.Token.Extent

/-!
What stands between the tokens of a text does not matter. White space, comments that a newline
ends and whole block comments are skipped, whatever stands in them, and each token with nothing
wrong is found again in front of white space. Main statement: the lexemes of a text, written
one behind another with such gaps between them, are read as the same tokens with nothing wrong.
-/

namespace StackScript

/-- White space, comments with the newline that ends them, and whole block comments. -/
inductive IsGap : List Char → Prop
  | none : IsGap []
  | space {c : Char} {gap : List Char} (hspace : c ∈ [' ', '\t', '\r', '\n'])
      (h : IsGap gap) : IsGap (c :: gap)
  | line {body gap : List Char} (hbody : '\n' ∉ body) (h : IsGap gap) :
      IsGap ('/' :: '/' :: (body ++ '\n' :: gap))
  | block {comment gap : List Char} (hcomment : IsBlockComment comment) (h : IsGap gap) :
      IsGap (comment ++ gap)

/-- A gap that keeps apart what stands around it. -/
structure Separates (gap : List Char) : Prop where
  isGap : IsGap gap
  starts : ∃ c rest, gap = c :: rest ∧ c ∈ [' ', '\t', '\r', '\n']

theorem IsGap.separates {c : Char} {gap : List Char} (h : IsGap gap)
    (hspace : c ∈ [' ', '\t', '\r', '\n']) : Separates (c :: gap) :=
  ⟨.space hspace h, c, gap, rfl, hspace⟩

/-- The lexemes of these tokens, each behind a gap that keeps it apart; one more such gap may
stand in front of the end. -/
inductive Spaced : List Token → List Char → Prop
  | none : Spaced [] []
  | last {gap : List Char} (hgap : Separates gap) : Spaced [] gap
  | cons {t : Token} {ts : List Token} {gap cs : List Char} (hgap : Separates gap)
      (h : Spaced ts cs) : Spaced (t :: ts) (gap ++ (t.lexeme.toList ++ cs))

/-- The lexemes of these tokens, with a gap that keeps it apart in front of each but the first. -/
def Respaced : List Token → List Char → Prop
  | [], cs => cs = []
  | t :: ts, cs => ∃ more, cs = t.lexeme.toList ++ more ∧ Spaced ts more

/-- The token with the place left out. -/
def Token.unplaced (t : Token) : Token := { t with position := default }

theorem IsGap.trivia {gap : List Char} (h : IsGap gap) (rest : List Char) : Trivia gap rest := by
  induction h with
  | none => exact .none rest
  | space hspace _ ih => exact .space hspace ih
  | line hbody _ ih =>
    have hnewline : Trivia ('\n' :: _) rest := .space (by simp) ih
    refine .line hbody ?_ hnewline
    intro c hc
    exact (Option.some.inj hc).symm
  | block hcomment _ ih => exact .block hcomment ih

namespace CommentPart

variable {d : Nat} {part : CommentPart} {parts : List CommentPart}

theorem Closes.tail (h : Closes d (part :: parts)) {d' : Nat} (hd : (d' : Int) = d + part.change) :
    Closes d' parts where
  closed := by
    have hclosed := h.closed
    rw [depth_cons] at hclosed
    omega
  inside front hfront hne := by
    have hinside := h.inside (part :: front) (List.cons_prefix_cons.2 ⟨rfl, hfront⟩)
      fun heq => hne (List.cons.inj heq).2
    rw [depth_cons] at hinside
    omega

theorem Closes.eq_nil (h : Closes 0 parts) : parts = [] := by
  by_cases hparts : parts = []
  · exact hparts
  · have hinside := h.inside [] List.nil_prefix (Ne.symm hparts)
    exact absurd hinside (by decide)

theorem Closes.ne_nil (h : Closes (d + 1) parts) : parts ≠ [] := by
  rintro rfl
  have hclosed : (0 : Int) = -((d + 1 : Nat) : Int) := h.closed
  omega

theorem ofChars_eq_nil {cs : List Char} (h : ofChars cs = []) : cs = [] := by
  cases cs with
  | nil => rfl
  | cons c cs =>
    rw [ofChars.eq_def] at h
    split at h <;> simp_all

end CommentPart

open CommentPart

/-- A whole block comment is its opening and what closes it. -/
theorem IsBlockComment.exists_closes {comment : List Char} (h : IsBlockComment comment) :
    ∃ inner, comment = '/' :: '*' :: inner ∧ Closes 1 (ofChars inner) := by
  have hopens := h.opens
  obtain ⟨inner, rfl⟩ : ∃ inner, comment = '/' :: '*' :: inner := by
    rw [ofChars.eq_def] at hopens
    split at hopens <;> simp_all
  have hparts : ofChars ('/' :: '*' :: inner) = opening :: ofChars inner := rfl
  have hclosed := h.closed
  rw [hparts, depth_cons] at hclosed
  simp only [change] at hclosed
  refine ⟨inner, rfl, by omega, ?_⟩
  intro front hfront hne
  have hinside := h.inside (opening :: front)
    (by rw [hparts]; exact List.cons_prefix_cons.2 ⟨rfl, hfront⟩) (List.cons_ne_nil _ _)
    (by rw [hparts]; exact fun heq => hne (List.cons.inj heq).2)
  rw [depth_cons] at hinside
  simp only [change] at hinside
  omega

namespace Gap

/-- What closes all open comments is skipped. -/
theorem skip_closes {start m : Mark} {outer : Nat} {inner : List Char}
    (h : Closes (outer + 1) (ofChars inner)) (rest : List Char) :
    (block start outer).skip m (inner ++ rest) = space.skip (inner.foldl Mark.after m) rest := by
  induction inner using ofChars.induct generalizing m outer with
  | case1 cs ih =>
    have hparts : ofChars ('/' :: '*' :: cs) = opening :: ofChars cs := rfl
    rw [hparts] at h
    have hinner : Closes (outer + 1 + 1) (ofChars cs) := h.tail rfl
    exact ih hinner
  | case2 cs ih =>
    have hparts : ofChars ('*' :: '/' :: cs) = closing :: ofChars cs := rfl
    rw [hparts] at h
    have hinner : Closes outer (ofChars cs) := h.tail (by simp only [change]; omega)
    cases outer with
    | zero =>
      obtain rfl := ofChars_eq_nil hinner.eq_nil
      rfl
    | succ outer => exact ih hinner
  | case3 c cs hopening hclosing ih =>
    have hparts : ofChars (c :: cs) = other c :: ofChars cs :=
      ofChars.eq_3 c cs hopening hclosing
    rw [hparts] at h
    have hinner : Closes (outer + 1) (ofChars cs) := h.tail (by simp only [change]; omega)
    have hcs : cs ≠ [] := by
      rintro rfl
      exact hinner.ne_nil rfl
    have hskip : (block start outer).skip m (c :: (cs ++ rest)) =
        (block start outer).skip (m.after c) (cs ++ rest) := by
      obtain ⟨d, cs, rfl⟩ := List.exists_cons_of_ne_nil hcs
      rw [skip.eq_def]
      dsimp only
      split
      · rename_i heq
        obtain ⟨rfl, -⟩ := List.cons.inj heq
        exact (hopening cs rfl rfl).elim
      · rename_i heq
        obtain ⟨rfl, -⟩ := List.cons.inj heq
        exact (hclosing cs rfl rfl).elim
      · rfl
    rw [List.cons_append, hskip]
    exact ih hinner
  | case4 => exact absurd rfl h.ne_nil

end Gap

theorem Trivia.skip {gap rest : List Char} (h : Trivia gap rest) (m : Mark) :
    Gap.space.skip m (gap ++ rest) = Gap.space.skip (gap.foldl Mark.after m) rest := by
  induction h generalizing m with
  | none => rfl
  | @space c gap rest hspace _ ih =>
    have hc : Gap.isSpace c = true := Gap.mem_space_iff.1 hspace
    have hslash : c ≠ '/' := by
      rintro rfl
      contradiction
    have hskip : Gap.space.skip m (c :: (gap ++ rest)) =
        Gap.space.skip (m.after c) (gap ++ rest) := by
      cases gap ++ rest <;> simp [Gap.skip, hslash, hc]
    rw [List.cons_append, hskip, ih, List.foldl_cons]
  | @line body gap rest hbody hend _ ih =>
    have hskip (cs : List Char) : Gap.space.skip m ('/' :: '/' :: cs) =
        Gap.line.skip ((m.after '/').after '/') cs := rfl
    have hplain : ∀ c ∈ body, decide (c ≠ '\n') = true := by
      intro c hc
      refine decide_eq_true ?_
      rintro rfl
      exact hbody hc
    have hstop : ∀ c, (gap ++ rest).head? = some c → decide (c ≠ '\n') = false := by
      intro c hc
      rw [hend c hc]
      decide
    obtain ⟨htake, hdrop⟩ := takeWhile_append_stop hplain hstop
    rw [List.cons_append, List.cons_append, hskip, List.append_assoc, Gap.skip_line, htake, hdrop,
      ih, List.foldl_cons, List.foldl_cons, List.foldl_append]
  | @block comment gap rest hcomment _ ih =>
    obtain ⟨inner, rfl, hcloses⟩ := hcomment.exists_closes
    have hskip (cs : List Char) : Gap.space.skip m ('/' :: '*' :: cs) =
        (Gap.block m 0).skip ((m.after '/').after '*') cs := rfl
    rw [List.append_assoc, List.cons_append, List.cons_append, hskip, Gap.skip_closes hcloses, ih,
      ← List.foldl_append]
    rfl

/-- What lies behind a gap is read as a token. -/
theorem Cursor.nextToken_of_read {c : Cursor} {first : Char} {cs gap : List Char}
    (hgap : Trivia gap (first :: cs))
    (hstop : ∀ m, Gap.space.skip m (first :: cs) = (none, m, first :: cs))
    (hrest : c.rest = gap ++ first :: cs) {found : Lexeme}
    (hfound : Lexeme.read c.file (gap.foldl Mark.after c.mark) first cs = found) :
    c.nextToken =
      (⟨⟨found.kind, String.ofList (first :: cs.take found.more), found.literal,
          (gap.foldl Mark.after c.mark).position c.file⟩, found.faults⟩,
        { c with
          mark := (gap ++ first :: cs.take found.more).foldl Mark.after c.mark
          rest := cs.drop found.more }) := by
  unfold Cursor.nextToken
  rw [hrest, hgap.skip, hstop]
  dsimp only
  rw [hfound, Array.empty_append, List.foldl_append]

theorem IsToken.nextToken_behind {first : Char} {more rest gap : List Char} {kind : TokenKind}
    {literal : Option Value} (h : IsToken first more rest kind literal)
    (hgap : Trivia gap (first :: (more ++ rest))) {c : Cursor}
    (hc : c.rest = gap ++ first :: (more ++ rest)) :
    c.nextToken =
      (⟨⟨kind, String.ofList (first :: more), literal,
          (gap.foldl Mark.after c.mark).position c.file⟩, #[]⟩,
        { c with mark := (gap ++ first :: more).foldl Mark.after c.mark, rest }) := by
  rw [Cursor.nextToken_of_read hgap h.gap hc (h.read _ _), List.take_left, List.drop_left]

/-- The characters of the token are this token in front of white space and of the end. -/
def Token.IsSeparable (t : Token) : Prop :=
  ∃ first more, t.lexeme = String.ofList (first :: more) ∧
    ∀ rest, BreaksOff rest [] → IsToken first more rest t.kind t.literal

theorem TokenStream.separable_scan (before : Array Scanned) (c : Cursor)
    (h : ∀ t ∈ before, t.faults = #[] → t.token.IsSeparable) :
    ∀ t ∈ (scan before c).ahead, t.faults = #[] → t.token.IsSeparable := by
  fun_induction scan before c with
  | case1 before c next hend => simpa using h
  | case2 before c next hgo ih =>
    refine ih fun t ht hfaults => ?_
    rcases Array.mem_push.1 ht with hmem | rfl
    · exact h t hmem hfaults
    · obtain ⟨_, first, more, _, _, _, _, hlexeme, htoken⟩ := c.exists_isToken hfaults hgo
      exact ⟨first, more, hlexeme, fun rest hrest => htoken rest (hrest.of_nil _)⟩

theorem TokenStream.separable_words {file text : String} (h : (ofText file text).faults = []) :
    ∀ t ∈ (ofText file text).words, t.IsSeparable := by
  intro t ht
  obtain ⟨scanned, hscanned, rfl⟩ := List.mem_map.1 ht
  have hquiet : scanned.faults = #[] := (faults_eq_nil_iff.1 h).1 scanned hscanned
  exact separable_scan #[] (.ofText file text) (by simp) scanned hscanned hquiet

theorem Separates.breaksOff {gap : List Char} (h : Separates gap) (cs : List Char) :
    BreaksOff (gap ++ cs) [] := by
  obtain ⟨c, rest, rfl, hspace⟩ := h.starts
  exact .space (Gap.mem_space_iff.1 hspace) _ []

theorem Spaced.breaksOff {ts : List Token} {cs : List Char} (h : Spaced ts cs) :
    BreaksOff cs [] := by
  cases h with
  | none => exact .ended []
  | last hgap =>
    rw [← List.append_nil cs]
    exact hgap.breaksOff []
  | cons hgap _ => exact hgap.breaksOff _

/-- The tokens apart from their places. -/
def AreAlike (ts us : List Token) : Prop := us.map Token.unplaced = ts.map Token.unplaced

/-- A token that is written behind a gap is read again. -/
theorem Token.IsSeparable.reads {t : Token} (h : t.IsSeparable) {gap rest : List Char}
    (hgap : IsGap gap) (hrest : BreaksOff rest []) {c : Cursor}
    (hc : c.rest = gap ++ (t.lexeme.toList ++ rest)) :
    ∃ u c', c.Reads [u] c' ∧ c'.rest = rest ∧ u.unplaced = t.unplaced := by
  obtain ⟨first, more, hlexeme, htoken⟩ := h
  rw [hlexeme, String.toList_ofList, List.cons_append] at hc
  have hnext := (htoken rest hrest).nextToken_behind (hgap.trivia _) hc
  have hreads : c.Reads [c.nextToken.1.token] c.nextToken.2 := by
    refine .one ?_ ?_ (.none _)
    · rw [hnext]
    · rw [hnext]
      exact (htoken rest hrest).kind_ne
  refine ⟨_, _, hreads, ?_, ?_⟩
  · rw [hnext]
  · rw [hnext, ← hlexeme]
    rfl

/-- These characters are read as tokens like these, up to a gap. -/
def AreRead (ts : List Token) (cs : List Char) : Prop :=
  ∀ c : Cursor, c.rest = cs → ∃ us c', c.Reads us c' ∧ IsGap c'.rest ∧ AreAlike ts us

theorem IsGap.areRead {gap : List Char} (h : IsGap gap) : AreRead [] gap :=
  fun c hc => ⟨[], c, .none c, hc ▸ h, rfl⟩

theorem Token.IsSeparable.areRead {t : Token} {ts : List Token} {gap cs : List Char}
    (h : t.IsSeparable) (hgap : IsGap gap) (hbreaks : BreaksOff cs []) (hcs : AreRead ts cs) :
    AreRead (t :: ts) (gap ++ (t.lexeme.toList ++ cs)) := by
  intro c hc
  obtain ⟨u, c', hreads, hrest, hu⟩ := h.reads hgap hbreaks hc
  obtain ⟨us, c'', hreads', hrest', hus⟩ := hcs c' hrest
  refine ⟨u :: us, c'', hreads.append hreads', hrest', ?_⟩
  rw [AreAlike, List.map_cons, List.map_cons, hu, hus]

theorem Spaced.areRead {ts : List Token} {cs : List Char} (h : Spaced ts cs)
    (hts : ∀ t ∈ ts, t.IsSeparable) : AreRead ts cs := by
  induction h with
  | none => exact IsGap.none.areRead
  | last hgap => exact hgap.isGap.areRead
  | cons hgap hspaced ih =>
    obtain ⟨ht, hts⟩ := List.forall_mem_cons.1 hts
    exact ht.areRead hgap.isGap hspaced.breaksOff (ih hts)

theorem Respaced.areRead {ts : List Token} {cs : List Char} (h : Respaced ts cs)
    (hts : ∀ t ∈ ts, t.IsSeparable) : AreRead ts cs := by
  cases ts with
  | nil =>
    obtain rfl : cs = [] := h
    exact IsGap.none.areRead
  | cons t ts =>
    obtain ⟨more, rfl, hspaced⟩ := h
    obtain ⟨ht, hts⟩ := List.forall_mem_cons.1 hts
    exact ht.areRead .none hspaced.breaksOff (hspaced.areRead hts)

theorem TokenStream.scan_gap {c : Cursor} (h : IsGap c.rest) (before : Array Scanned) :
    (scan before c).ahead = before.toList ∧ (scan before c).stop.faults = #[] := by
  have hskip := (h.trivia []).skip c.mark
  rw [List.append_nil] at hskip
  have hnext : c.nextToken.1 =
      ⟨⟨.endOfStream, "", none, (c.rest.foldl Mark.after c.mark).position c.file⟩, #[]⟩ := by
    unfold Cursor.nextToken
    rw [hskip]
    rfl
  rw [scan, hnext, if_pos rfl]
  exact ⟨rfl, rfl⟩

/-- The tokens up to the last gap of a text, none of them with anything wrong. -/
theorem TokenStream.ofText_of_reads {file text : String} {ts : List Token} {c : Cursor}
    (h : (Cursor.ofText file text).Reads ts c) (hrest : IsGap c.rest) :
    (ofText file text).faults = [] ∧ (ofText file text).words = ts := by
  obtain ⟨hahead, hstop⟩ :=
    scan_gap hrest (#[] ++ (ts.map fun t => (⟨t, #[]⟩ : Scanned)).toArray)
  rw [← h.scan] at hahead hstop
  rw [List.toList_toArray, Array.empty_append] at hahead
  exact quiet_of_ahead hahead hstop

/-- The lexemes of a text with nothing wrong in it, written in their order with gaps between
them, are the tokens of the new text, and there is nothing wrong with that. -/
theorem TokenStream.words_respaced {file text : String} (h : (ofText file text).faults = [])
    {text' : String} (h' : Respaced (ofText file text).words text'.toList) (file' : String) :
    (ofText file' text').faults = [] ∧
      AreAlike (ofText file text).words (ofText file' text').words := by
  obtain ⟨us, c, hreads, hrest, halike⟩ :=
    h'.areRead (separable_words h) (.ofText file' text') rfl
  obtain ⟨hfaults, hwords⟩ := ofText_of_reads hreads hrest
  rw [hwords]
  exact ⟨hfaults, halike⟩

/-- Signs of one and of two characters, a number in front of a point, and a gap of comments
one within the other. -/
theorem TokenStream.words_respaced_signs :
    let words := (ofText "f" "a<=1./b").words
    let text := "a <= 1 /*/**/*/. // 1.5\n/\tb "
    words = [⟨.identifier, "a", none, ⟨"f", 1, 1⟩⟩, ⟨.lessEqual, "<=", none, ⟨"f", 1, 2⟩⟩,
        ⟨.int, "1", some (.int 1), ⟨"f", 1, 4⟩⟩, ⟨.dot, ".", none, ⟨"f", 1, 5⟩⟩,
        ⟨.slash, "/", none, ⟨"f", 1, 6⟩⟩, ⟨.identifier, "b", none, ⟨"f", 1, 7⟩⟩] ∧
      (ofText "f" text).faults = [] ∧ AreAlike words (ofText "f" text).words := by
  intro words
  have hquiet : (ofText "f" "a<=1./b").faults = [] := by decide +kernel
  -- the lexer runs once, and its tokens are then respaced as they are
  refine (fun hwords => ⟨hwords, words_respaced hquiet ?_ "f"⟩ : words = _ → words = _ ∧ _)
    (by decide +kernel)
  change Respaced words _
  rw [hwords]
  have hspace : Separates [' '] := IsGap.none.separates (by decide)
  have htab : Separates ['\t'] := IsGap.none.separates (by decide)
  have hcomment : IsBlockComment "/*/**/*/".toList := by
    refine isBlockComment_of_closes ?_
    have hnone : Closes 0 [] := closes_zero
    have hone : Closes 1 [closing] := hnone.cons (by decide) (by decide)
    have htwo : Closes 2 [closing, closing] := hone.cons (by decide) (by decide)
    exact htwo.cons (by decide) (by decide)
  have hblock : Separates (' ' :: ("/*/**/*/".toList ++ [])) :=
    (IsGap.block hcomment .none).separates (by decide)
  have hbody : '\n' ∉ " 1.5".toList := by decide
  have hline : Separates (' ' :: '/' :: '/' :: (" 1.5".toList ++ '\n' :: [])) :=
    (IsGap.line hbody .none).separates (by decide)
  refine ⟨_, rfl, ?_⟩
  exact .cons hspace (.cons hspace (.cons hblock (.cons hline (.cons htab (.last hspace)))))

end StackScript
