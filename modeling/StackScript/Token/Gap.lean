import StackScript.Cursor

/-!
What may stand between two tokens: white space, comments to the end of the line,
and block comments, which nest. A gap is read as an automaton whose state says
what has been opened; it ends before the first character of a token.
-/

namespace StackScript

inductive Gap where
  | space
  | line
  /-- Inside a block comment, which `outer` others enclose. -/
  | block (start : Mark) (outer : Nat)
  deriving DecidableEq, Inhabited

namespace Gap

def isSpace (c : Char) : Bool := c == ' ' || c == '\t' || c == '\r' || c == '\n'

/-- Where the outermost open block comment starts. -/
def opened : Gap → Option Mark
  | block start _ => some start
  | _ => none

/-- The state behind the end of a block comment. -/
def closeOne (start : Mark) : Nat → Gap
  | 0 => space
  | outer + 1 => block start outer

/-- Skips to the end of the gap. A block comment that the text leaves open is told
by its start. -/
def skip (gap : Gap) (m : Mark) : List Char → Option Mark × Mark × List Char
  | [] => (gap.opened, m, [])
  | c :: cs =>
    match gap with
    | space =>
      match c, cs with
      | '/', '/' :: cs => skip line ((m.after '/').after '/') cs
      | '/', '*' :: cs => skip (block m 0) ((m.after '/').after '*') cs
      | c, cs => if isSpace c then skip space (m.after c) cs else (none, m, c :: cs)
    | line => skip (if c = '\n' then space else line) (m.after c) cs
    | block start outer =>
      match c, cs with
      | '/', '*' :: cs => skip (block start (outer + 1)) ((m.after '/').after '*') cs
      | '*', '/' :: cs =>
        skip (closeOne start outer) ((m.after '*').after '/') cs
      | c, cs => skip gap (m.after c) cs

/-- Skipping never goes back. -/
theorem length_skip_le (gap : Gap) (m : Mark) (cs : List Char) :
    (gap.skip m cs).2.2.length ≤ cs.length := by
  fun_induction Gap.skip gap m cs with
  | case1 => simp
  | case2 _ _ ih | case3 _ _ ih | case7 _ _ _ _ ih | case8 _ _ _ _ ih =>
    simp only [List.length_cons]
    omega
  | case4 _ _ _ _ _ _ ih | case6 _ _ _ ih | case9 _ _ _ _ _ _ _ ih =>
    rw [List.length_cons]
    omega
  | case5 => simp

end Gap

end StackScript
