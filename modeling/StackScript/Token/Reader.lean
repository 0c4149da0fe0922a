import StackScript.Token.Scan
import StackScript.Log

/-!
Tokens one at a time with one token of lookahead. Diagnostics are held as soon as
the token that they belong to has been seen, read or not.
-/

namespace StackScript

structure TokenReader where
  cursor : Cursor
  /-- The token that has been seen and not yet read. -/
  seen : Option Token := none
  previous : Option Token := none
  held : Log := {}
  deriving Inhabited

namespace TokenReader

def ofText (file text : String) : TokenReader := { cursor := .ofText file text }

def file (r : TokenReader) : String := r.cursor.file

/-- The next token, which stays the next one. -/
def peek (r : TokenReader) : Token × TokenReader :=
  match r.seen with
  | some token => (token, r)
  | none =>
    let (next, cursor) := r.cursor.nextToken
    (next.token, { r with cursor, seen := some next.token, held := r.held.addAll next.faults })

def read (r : TokenReader) : Token × TokenReader :=
  let (token, r) := r.peek
  (token, { r with seen := none, previous := some token })

/-- Hands over the diagnostics held so far. -/
def takeLog (r : TokenReader) : Log × TokenReader := (r.held, { r with held := {} })

@[simp] theorem fst_takeLog (r : TokenReader) : r.takeLog.1 = r.held := rfl

@[simp] theorem held_takeLog (r : TokenReader) : r.takeLog.2.held = {} := rfl

@[simp] theorem peek_takeLog (r : TokenReader) : r.takeLog.2.peek.1 = r.peek.1 := by
  unfold takeLog peek
  cases r.seen <;> rfl

/-- A bound on the tokens still to be read. -/
def left (r : TokenReader) : Nat := r.cursor.rest.length + if r.seen.isSome then 1 else 0

theorem left_read (r : TokenReader) (h : r.peek.1.kind ≠ .endOfStream) :
    r.read.2.left < r.left := by
  revert h
  unfold read peek left
  cases hs : r.seen with
  | some token => simp
  | none =>
    intro h
    simpa using r.cursor.length_nextToken h

/-- All tokens before the end of the stream, which is then the next one. -/
def readRest (r : TokenReader) (before : Array Token := #[]) : Array Token × TokenReader :=
  if r.peek.1.kind = .endOfStream then (before, r.peek.2)
  else r.read.2.readRest (before.push r.read.1)
termination_by r.left
decreasing_by exact r.left_read ‹_›

end TokenReader

end StackScript
