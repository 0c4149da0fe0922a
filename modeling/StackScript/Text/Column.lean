/-!
Text set in columns of a least width, and the margin that sets lines in. What is
wider than its column keeps its width.
-/

namespace StackScript.Text

def alignLeft (width : Nat) (s : String) : String :=
  s ++ String.ofList (List.replicate (width - s.length) ' ')

def alignRight (width : Nat) (s : String) (fill : Char := ' ') : String :=
  String.ofList (List.replicate (width - s.length) fill) ++ s

/-- Four columns for each step. -/
def margin (steps : Nat) : String := String.ofList (List.replicate (4 * steps) ' ')

end StackScript.Text
