import StackScript.Proofs.Token.Spelling

/-!
What stands between tokens, told apart from the way it is skipped. A block comment is read as
delimiters and other characters; it ends with the first closing that leaves as many closings
as openings. Main statement: a gap is skipped up to a character that begins neither white
space nor a comment, or else up to the end of the text, if a block comment stays open there.
-/

namespace StackScript

/-- A part of a block comment. -/
inductive CommentPart where
  | opening
  | closing
  | other (c : Char)
  deriving DecidableEq

namespace CommentPart

/-- The parts of a comment from left to right: no character belongs to two of them. -/
def ofChars : List Char → List CommentPart
  | '/' :: '*' :: cs => opening :: ofChars cs
  | '*' :: '/' :: cs => closing :: ofChars cs
  | c :: cs => other c :: ofChars cs
  | [] => []

/-- How many more comments have been opened than closed. -/
def depth (parts : List CommentPart) : Int := parts.count opening - parts.count closing

end CommentPart

open CommentPart

/-- A whole block comment: the depth is back at zero at its end, and not before. -/
structure IsBlockComment (cs : List Char) : Prop where
  opens : (ofChars cs).head? = some opening
  closed : depth (ofChars cs) = 0
  inside : ∀ front, front <+: ofChars cs → front ≠ [] → front ≠ ofChars cs → 0 < depth front

/-- A block comment that nothing closes. -/
structure IsOpenComment (cs : List Char) : Prop where
  opens : (ofChars cs).head? = some opening
  inside : ∀ front, front <+: ofChars cs → front ≠ [] → 0 < depth front

/-- White space and whole comments, in front of the text `rest`. A comment that begins with
two slashes goes up to a newline or the end. -/
inductive Trivia : List Char → List Char → Prop
  | none (rest : List Char) : Trivia [] rest
  | space {c : Char} {gap rest : List Char} (hspace : c ∈ [' ', '\t', '\r', '\n'])
      (h : Trivia gap rest) : Trivia (c :: gap) rest
  | line {body gap rest : List Char} (hbody : '\n' ∉ body)
      (hend : ∀ c, (gap ++ rest).head? = some c → c = '\n') (h : Trivia gap rest) :
      Trivia ('/' :: '/' :: (body ++ gap)) rest
  | block {comment gap rest : List Char} (hcomment : IsBlockComment comment)
      (h : Trivia gap rest) : Trivia (comment ++ gap) rest

/-- Neither white space nor a comment begins here. -/
def StartsToken (cs : List Char) : Prop :=
  ∀ c ∈ cs.head?, c ∉ [' ', '\t', '\r', '\n'] ∧
    (c = '/' → cs.tail.head? ≠ some '/' ∧ cs.tail.head? ≠ some '*')

namespace CommentPart

def change : CommentPart → Int
  | opening => 1
  | closing => -1
  | other _ => 0

theorem depth_cons (part : CommentPart) (parts : List CommentPart) :
    depth (part :: parts) = part.change + depth parts := by
  cases part <;> simp only [depth, change, List.count_cons] <;> simp <;> omega

/-- The last of these parts closes the last of `d` open comments. -/
structure Closes (d : Nat) (parts : List CommentPart) : Prop where
  closed : depth parts = -d
  inside : ∀ front, front <+: parts → front ≠ parts → -d < depth front

/-- Some of `d` open comments stay open. -/
def StaysOpen (d : Nat) (parts : List CommentPart) : Prop :=
  ∀ front, front <+: parts → -d < depth front

variable {d d' : Nat} {part : CommentPart} {parts : List CommentPart}

theorem closes_zero : Closes 0 [] where
  closed := rfl
  inside _ hfront hne := absurd (List.prefix_nil.1 hfront) hne

theorem Closes.cons (h : Closes d' parts) (hd : (d' : Int) = d + part.change) (hpos : 0 < d) :
    Closes d (part :: parts) where
  closed := by
    rw [depth_cons, h.closed]
    omega
  inside front hfront hne := by
    rcases List.prefix_cons_iff.1 hfront with rfl | ⟨front', rfl, hfront'⟩
    · simp only [depth, List.count_nil]
      omega
    · have hinside := h.inside front' hfront' fun heq => hne (congrArg _ heq)
      rw [depth_cons]
      omega

theorem StaysOpen.cons (h : StaysOpen d' parts) (hd : (d' : Int) = d + part.change)
    (hpos : 0 < d) : StaysOpen d (part :: parts) := by
  intro front hfront
  rcases List.prefix_cons_iff.1 hfront with rfl | ⟨front', rfl, hfront'⟩
  · simp only [depth, List.count_nil]
    omega
  · have hinside := h front' hfront'
    rw [depth_cons]
    omega

end CommentPart

theorem isBlockComment_of_closes {cs : List Char} (h : Closes 1 (ofChars cs)) :
    IsBlockComment ('/' :: '*' :: cs) := by
  have hparts : ofChars ('/' :: '*' :: cs) = opening :: ofChars cs := rfl
  refine ⟨congrArg List.head? hparts, ?_, ?_⟩
  · rw [hparts, depth_cons, h.closed]
    rfl
  · intro front hfront hnil hne
    rw [hparts] at hfront hne
    rcases List.prefix_cons_iff.1 hfront with rfl | ⟨front', rfl, hfront'⟩
    · exact absurd rfl hnil
    · have hinside := h.inside front' hfront' fun heq => hne (congrArg _ heq)
      rw [depth_cons]
      simp only [change]
      omega

theorem isOpenComment_of_staysOpen {cs : List Char} (h : StaysOpen 1 (ofChars cs)) :
    IsOpenComment ('/' :: '*' :: cs) := by
  have hparts : ofChars ('/' :: '*' :: cs) = opening :: ofChars cs := rfl
  refine ⟨congrArg List.head? hparts, ?_⟩
  intro front hfront hnil
  rw [hparts] at hfront
  rcases List.prefix_cons_iff.1 hfront with rfl | ⟨front', rfl, hfront'⟩
  · exact absurd rfl hnil
  · have hinside := h front' hfront'
    rw [depth_cons]
    simp only [change]
    omega

namespace Gap

theorem skip_line (m : Mark) (cs : List Char) :
    line.skip m cs = space.skip ((cs.takeWhile (· ≠ '\n')).foldl Mark.after m)
      (cs.dropWhile (· ≠ '\n')) := by
  induction cs generalizing m with
  | nil => rfl
  | cons c cs ih =>
    by_cases hc : c = '\n'
    · subst hc
      have hspace : isSpace '\n' = true := rfl
      rw [List.takeWhile_cons_of_neg (by simp), List.dropWhile_cons_of_neg (by simp)]
      simp [skip, hspace]
    · rw [List.takeWhile_cons_of_pos (by simpa), List.dropWhile_cons_of_pos (by simpa),
        List.foldl_cons, ← ih]
      simp [skip, hc]

/-- What skipping finds with `d` comments open: the end of the last of them, behind which the
gap goes on, or the end of the text. -/
inductive BlockSkipped (start m : Mark) (d : Nat) :
    List Char → Option Mark × Mark × List Char → Prop
  | closed {inner rest : List Char} (h : Closes d (ofChars inner)) :
      BlockSkipped start m d (inner ++ rest) (space.skip (inner.foldl Mark.after m) rest)
  | unclosed {cs : List Char} (h : StaysOpen d (ofChars cs)) :
      BlockSkipped start m d cs (some start, cs.foldl Mark.after m, [])

theorem BlockSkipped.behind {start m : Mark} {d d' : Nat} {cs : List Char}
    {result : Option Mark × Mark × List Char} (front : List Char) (part : CommentPart)
    (h : BlockSkipped start (front.foldl Mark.after m) d' cs result)
    (hpart : ∀ inner rest, cs = inner ++ rest → ofChars (front ++ inner) = part :: ofChars inner)
    (hd : (d' : Int) = d + part.change) (hpos : 0 < d) :
    BlockSkipped start m d (front ++ cs) result := by
  cases h with
  | @closed inner rest hcloses =>
    rw [← List.append_assoc, ← List.foldl_append]
    apply BlockSkipped.closed
    rw [hpart inner rest rfl]
    exact hcloses.cons hd hpos
  | unclosed hopen =>
    rw [← List.foldl_append]
    apply BlockSkipped.unclosed
    rw [hpart cs [] (List.append_nil cs).symm]
    exact hopen.cons hd hpos

theorem skip_block (start m : Mark) (outer : Nat) (cs : List Char) :
    BlockSkipped start m (outer + 1) cs ((block start outer).skip m cs) := by
  induction cs using ofChars.induct generalizing m outer with
  | case1 cs ih =>
    have hinner := ih ((m.after '/').after '*') (outer + 1)
    refine hinner.behind ['/', '*'] opening (fun _ _ _ => rfl) ?_ (Nat.succ_pos outer)
    simp only [change]
    omega
  | case2 cs ih =>
    cases outer with
    | zero =>
      have hcloses : Closes 1 (ofChars ['*', '/']) := closes_zero.cons rfl Nat.one_pos
      exact .closed hcloses
    | succ outer =>
      have hinner := ih ((m.after '*').after '/') outer
      refine hinner.behind ['*', '/'] closing (fun _ _ _ => rfl) ?_ (Nat.succ_pos _)
      simp only [change]
      omega
  | case3 c cs hopening hclosing ih =>
    have hskip : (block start outer).skip m (c :: cs) =
        (block start outer).skip (m.after c) cs := by
      rw [skip.eq_def]
      dsimp only
      split
      · exact absurd rfl (hopening _ rfl)
      · exact absurd rfl (hclosing _ rfl)
      · rfl
    rw [hskip]
    have hinner := ih (m.after c) outer
    refine hinner.behind [c] (other c) (fun inner rest hcs => ?_) rfl (Nat.succ_pos _)
    -- what begins no delimiter in front of `cs` begins none in front of a part of it
    subst hcs
    exact ofChars.eq_3 c inner
      (fun more hc hmore => hopening (more ++ rest) hc (by rw [hmore]; rfl))
      fun more hc hmore => hclosing (more ++ rest) hc (by rw [hmore]; rfl)
  | case4 =>
    refine .unclosed fun front hfront => ?_
    rw [List.prefix_nil.1 hfront]
    exact Int.neg_neg_of_pos (Int.natCast_pos.2 (Nat.succ_pos _))

/-- What skipping a gap finds: a token or the end of the text behind it, or a comment that
stays open and is told by its start. -/
inductive Skipped (m : Mark) : List Char → Option Mark × Mark × List Char → Prop
  | whole {gap rest : List Char} (hgap : Trivia gap rest) (hrest : StartsToken rest) :
      Skipped m (gap ++ rest) (none, gap.foldl Mark.after m, rest)
  | unclosed {gap comment : List Char} (hgap : Trivia gap comment)
      (hcomment : IsOpenComment comment) :
      Skipped m (gap ++ comment)
        (some (gap.foldl Mark.after m), (gap ++ comment).foldl Mark.after m, [])

theorem Skipped.behind {m : Mark} (front : List Char) {cs : List Char}
    {result : Option Mark × Mark × List Char} (h : Skipped (front.foldl Mark.after m) cs result)
    (hfront : ∀ gap rest, cs = gap ++ rest → Trivia gap rest → Trivia (front ++ gap) rest) :
    Skipped m (front ++ cs) result := by
  cases h with
  | @whole gap rest hgap hrest =>
    rw [← List.append_assoc, ← List.foldl_append]
    exact .whole (hfront gap rest rfl hgap) hrest
  | @unclosed gap comment hgap hcomment =>
    rw [← List.append_assoc, ← List.foldl_append, ← List.foldl_append, ← List.append_assoc]
    exact .unclosed (hfront gap comment rfl hgap) hcomment

theorem mem_space_iff {c : Char} : c ∈ [' ', '\t', '\r', '\n'] ↔ isSpace c = true := by
  simp [isSpace, or_assoc]

theorem skipped_line {m : Mark} {cs : List Char}
    (h : ∀ m cs', cs'.length ≤ cs.length → Skipped m cs' (space.skip m cs')) :
    Skipped m ('/' :: '/' :: cs) (space.skip m ('/' :: '/' :: cs)) := by
  have hskip : space.skip m ('/' :: '/' :: cs) = line.skip ((m.after '/').after '/') cs := rfl
  have hcs : '/' :: '/' :: cs =
      '/' :: '/' :: cs.takeWhile (· ≠ '\n') ++ cs.dropWhile (· ≠ '\n') := by
    rw [List.cons_append, List.cons_append, List.takeWhile_append_dropWhile]
  have hbody : '\n' ∉ cs.takeWhile (· ≠ '\n') := fun hmem => by
    simpa using List.all_eq_true.1 List.all_takeWhile _ hmem
  rw [hskip, skip_line, hcs]
  refine Skipped.behind _ (h _ _ (List.dropWhile_suffix _).length_le) fun gap rest hrest hgap => ?_
  refine .line hbody (fun c hc => ?_) hgap
  have hend := List.head?_dropWhile_not (· ≠ '\n') cs
  rw [hrest, hc] at hend
  simpa using hend

theorem skipped_block {m : Mark} {cs : List Char}
    (h : ∀ m cs', cs'.length ≤ cs.length → Skipped m cs' (space.skip m cs')) :
    Skipped m ('/' :: '*' :: cs) (space.skip m ('/' :: '*' :: cs)) := by
  have hskip : space.skip m ('/' :: '*' :: cs) =
      (block m 0).skip ((m.after '/').after '*') cs := rfl
  have hinner := skip_block m ((m.after '/').after '*') 0 cs
  rw [hskip]
  generalize (block m 0).skip ((m.after '/').after '*') cs = result at hinner
  cases hinner with
  | @closed inner rest hcloses =>
    have hrest : rest.length ≤ (inner ++ rest).length := by simp
    exact Skipped.behind ('/' :: '*' :: inner) (h _ _ hrest) fun gap rest _ hgap =>
      .block (isBlockComment_of_closes hcloses) hgap
  | unclosed hopen => exact .unclosed (.none _) (isOpenComment_of_staysOpen hopen)

theorem skipped_space (m : Mark) (cs : List Char) : Skipped m cs (space.skip m cs) := by
  -- by the length, since a comment takes off many characters at once
  induction hlength : cs.length using Nat.strongRecOn generalizing m cs with
  | ind length ih =>
    subst hlength
    cases cs with
    | nil => exact .whole (.none []) fun c hc => by cases hc
    | cons c cs =>
      have hrest (m : Mark) (cs' : List Char) (hle : cs'.length ≤ cs.length) :
          Skipped m cs' (space.skip m cs') :=
        ih cs'.length (Nat.lt_succ_of_le hle) m cs' rfl
      by_cases hspace : isSpace c = true
      · have hslash : c ≠ '/' := by
          rintro rfl
          contradiction
        have hskip : space.skip m (c :: cs) = space.skip (m.after c) cs := by
          cases cs <;> simp [skip, hslash, hspace]
        rw [hskip]
        exact Skipped.behind [c] (hrest _ cs (Nat.le_refl _)) fun gap rest _ hgap =>
          .space (mem_space_iff.2 hspace) hgap
      · by_cases hslash : c = '/' → cs.head? ≠ some '/' ∧ cs.head? ≠ some '*'
        · rw [skip_stop (Bool.eq_false_iff.2 hspace) hslash]
          refine .whole (.none _) fun c' hc' => ?_
          cases hc'
          exact ⟨fun hmem => hspace (mem_space_iff.1 hmem), hslash⟩
        · obtain ⟨rfl, hhead⟩ := Classical.not_imp.1 hslash
          rcases Decidable.not_and_iff_not_or_not.1 hhead with hline | hblock
          · obtain ⟨cs, rfl⟩ := List.head?_eq_some_iff.1 (Decidable.not_not.1 hline)
            exact skipped_line fun m cs' hle => hrest m cs' (Nat.le_succ_of_le hle)
          · obtain ⟨cs, rfl⟩ := List.head?_eq_some_iff.1 (Decidable.not_not.1 hblock)
            exact skipped_block fun m cs' hle => hrest m cs' (Nat.le_succ_of_le hle)

/-- No character belongs to two delimiters. -/
example : space.skip {} "/*/ */ 1".toList = (none, ⟨7, 1, 8⟩, ['1']) := by decide

end Gap

end StackScript
