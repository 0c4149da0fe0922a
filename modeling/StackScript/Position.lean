/-!
Places in a named text. Lines and columns count from one; line zero marks a
place that no text has, such as a file that could not be read.
-/

namespace StackScript

structure Position where
  file : String
  line : UInt32
  column : UInt32
  deriving DecidableEq, Inhabited

namespace Position

/-- The place used for a file as a whole. -/
def ofFile (file : String) : Position := ⟨file, 0, 0⟩

def text (p : Position) : String :=
  p.file ++ "(" ++ toString p.line.toNat ++ ":" ++ toString p.column.toNat ++ ")"

end Position

end StackScript
