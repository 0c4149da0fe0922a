/-!
The operators of the language. `&&` and `||` stand apart because their right
operand is not always evaluated.
-/

namespace StackScript

inductive BinaryOp where
  | add
  | sub
  | mul
  | div
  | mod
  | less
  | lessEqual
  | greater
  | greaterEqual
  | equal
  | notEqual
  | bitAnd
  | bitOr
  deriving DecidableEq, Inhabited

inductive UnaryOp where
  | negate
  | not
  | bitNot
  deriving DecidableEq, Inhabited

inductive LogicalOp where
  | and
  | or
  deriving DecidableEq, Inhabited

namespace BinaryOp

def all : List BinaryOp :=
  [add, sub, mul, div, mod, less, lessEqual, greater, greaterEqual, equal, notEqual,
   bitAnd, bitOr]

theorem mem_all (op : BinaryOp) : op ∈ all := by cases op <;> decide

def symbol : BinaryOp → String
  | add => "+"
  | sub => "-"
  | mul => "*"
  | div => "/"
  | mod => "%"
  | less => "<"
  | lessEqual => "<="
  | greater => ">"
  | greaterEqual => ">="
  | equal => "=="
  | notEqual => "!="
  | bitAnd => "&"
  | bitOr => "|"

end BinaryOp

namespace UnaryOp

def all : List UnaryOp := [negate, not, bitNot]

theorem mem_all (op : UnaryOp) : op ∈ all := by cases op <;> decide

def symbol : UnaryOp → String
  | negate => "-"
  | not => "!"
  | bitNot => "~"

end UnaryOp

namespace LogicalOp

def all : List LogicalOp := [and, or]

theorem mem_all (op : LogicalOp) : op ∈ all := by cases op <;> decide

def symbol : LogicalOp → String
  | and => "&&"
  | or => "||"

/-- Whether the truth of the left operand settles the result. -/
def isSettledBy : LogicalOp → Bool → Bool
  | and, left => !left
  | or, left => left

end LogicalOp

end StackScript
