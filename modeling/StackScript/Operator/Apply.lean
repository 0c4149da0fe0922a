import StackScript.Operator.Basic
import StackScript.Value
import StackScript.Diagnostic

/-!
What the operators compute. Two ints stay an int and wrap around at 32 bits; an
int beside a number becomes a number. `+` also joins strings. Only nulls, bools
and ints can be equal to one another, and `%`, `&`, `|` and `~` are for ints.
-/

namespace StackScript

/-- Why an operator has no result. -/
inductive OperandFault where
  | onNull
  | invalidOperands
  | divisionByZero
  deriving DecidableEq, Inhabited

namespace OperandFault

def binaryFault : OperandFault → Fault
  | onNull => .operationOnNull
  | invalidOperands => .invalidBinaryOperation
  | divisionByZero => .divisionByZero

def unaryFault : OperandFault → Fault
  | onNull => .operationOnNull
  | invalidOperands => .invalidUnaryOperation
  | divisionByZero => .invalidUnaryOperation

end OperandFault

namespace BinaryOp

def equality : Value → Value → Except OperandFault Bool
  | .null, .null => .ok true
  | .null, _ => .ok false
  | _, .null => .ok false
  | .bool x, .bool y => .ok (x == y)
  | .int x, .int y => .ok (x == y)
  | _, _ => .error .invalidOperands

def arithmetic (onInts : Int32 → Int32 → Int32) (onNumbers : Single → Single → Single)
    (a b : Value) : Except OperandFault Value :=
  match a, b with
  | .int x, .int y => .ok (.int (onInts x y))
  | a, b =>
    match a.number?, b.number? with
    | some x, some y => .ok (.number (onNumbers x y))
    | _, _ => .error .invalidOperands

/-- What a test of numbers says of an exact order: the lesser value is put at zero and the greater
one at one. -/
def onOrder (test : Single → Single → Bool) : Ordering → Bool
  | .lt => test .zero .one
  | .eq => test .zero .zero
  | .gt => test .one .zero

/-- Ints are compared exactly, since large ones share their nearest number. -/
def comparison (test : Single → Single → Bool) (a b : Value) : Except OperandFault Value :=
  match a, b with
  | .int x, .int y => .ok (.bool (onOrder test (compare x y)))
  | a, b =>
    match a.number?, b.number? with
    | some x, some y => .ok (.bool (test x y))
    | _, _ => .error .invalidOperands

def integral (onInts : Int32 → Int32 → Int32) :
    Value → Value → Except OperandFault Value
  | .int x, .int y => .ok (.int (onInts x y))
  | _, _ => .error .invalidOperands

def concatenation : Value → Value → Except OperandFault Value
  | .string x, .string y => .ok (.string (x ++ y))
  | a, b => arithmetic (· + ·) Single.add a b

def isIntZero : Value → Value → Bool
  | .int _, .int y => y == 0
  | _, _ => false

/-- The operators that have no meaning for `null`. -/
def applyNonNull (op : BinaryOp) (a b : Value) : Except OperandFault Value :=
  match op with
  | add => concatenation a b
  | sub => arithmetic (· - ·) Single.sub a b
  | mul => arithmetic (· * ·) Single.mul a b
  | div =>
    if isIntZero a b then .error .divisionByZero else arithmetic (· / ·) Single.div a b
  | mod => if isIntZero a b then .error .divisionByZero else integral (· % ·) a b
  | less => comparison Single.less a b
  | lessEqual => comparison Single.lessEqual a b
  | greater => comparison (fun x y => y.less x) a b
  | greaterEqual => comparison (fun x y => y.lessEqual x) a b
  | bitAnd => integral (· &&& ·) a b
  | bitOr => integral (· ||| ·) a b
  | equal => .error .invalidOperands
  | notEqual => .error .invalidOperands

def apply (op : BinaryOp) (a b : Value) : Except OperandFault Value :=
  match op with
  | equal => (equality a b).map .bool
  | notEqual => (equality a b).map fun same => .bool !same
  | op => if a.isNull || b.isNull then .error .onNull else applyNonNull op a b

end BinaryOp

def UnaryOp.apply : UnaryOp → Value → Except OperandFault Value
  | .not, v => .ok (.bool !v.isTruthy)
  | _, .null => .error .onNull
  | .negate, .int i => .ok (.int (-i))
  | .negate, .number x => .ok (.number x.neg)
  | .bitNot, .int i => .ok (.int (~~~i))
  | _, _ => .error .invalidOperands

/-- A note that tells what an operand was. -/
def Value.noteAt (v : Value) (position : Position) : Diagnostic :=
  .note position .evaluatesTo [v.typeName, v.text]

/-- The error for an operator without a result. A note tells each operand, unless
the fault is in the division alone. -/
def BinaryOp.report (op : BinaryOp) (fault : OperandFault) (position : Position)
    (left right : Position × Value) : Array Diagnostic :=
  let error := Diagnostic.error position fault.binaryFault [op.symbol]
  match fault with
  | .divisionByZero => #[error]
  | _ => #[error, left.2.noteAt left.1, right.2.noteAt right.1]

def UnaryOp.report (op : UnaryOp) (fault : OperandFault) (position : Position)
    (operand : Position × Value) : Array Diagnostic :=
  #[.error position fault.unaryFault [op.symbol], operand.2.noteAt operand.1]

end StackScript
