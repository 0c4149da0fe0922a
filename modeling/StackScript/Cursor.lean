import StackScript.Position

/-!
A reading place in a text. A line feed starts the next line, and every other
character takes one column; the place of a cursor is that of the next character.
-/

namespace StackScript

/-- How far into a text a place is. -/
structure Mark where
  offset : Nat := 0
  line : UInt32 := 1
  column : UInt32 := 1
  deriving DecidableEq, Inhabited

namespace Mark

def after (m : Mark) (c : Char) : Mark :=
  if c = '\n' then ⟨m.offset + 1, m.line + 1, 1⟩ else ⟨m.offset + 1, m.line, m.column + 1⟩

def position (m : Mark) (file : String) : Position := ⟨file, m.line, m.column⟩

@[simp] theorem offset_after (m : Mark) (c : Char) : (m.after c).offset = m.offset + 1 := by
  unfold after
  split <;> rfl

end Mark

structure Cursor where
  file : String
  source : List Char
  mark : Mark := {}
  rest : List Char := source
  deriving Inhabited

namespace Cursor

def ofText (file text : String) : Cursor := { file, source := text.toList }

def peek (c : Cursor) : Option Char := c.rest.head?

def peekNext (c : Cursor) : Option Char := c.rest.tail.head?

/-- The next character, and the cursor behind it. -/
def read (c : Cursor) : Option Char × Cursor :=
  match c.rest with
  | [] => (none, c)
  | ch :: rest => (some ch, { c with mark := c.mark.after ch, rest })

/-- Reads the next character if it is the expected one. -/
def eat (c : Cursor) (expected : Char) : Bool × Cursor :=
  if c.peek = some expected then (true, c.read.2) else (false, c)

def isAtEnd (c : Cursor) : Bool := c.rest.isEmpty

def offset (c : Cursor) : Nat := c.mark.offset

/-- The text between two offsets, as far as there is any. -/
def slice (c : Cursor) (start stop : Nat) : String :=
  String.ofList ((c.source.take stop).drop start)

def position (c : Cursor) : Position := c.mark.position c.file

end Cursor

end StackScript
