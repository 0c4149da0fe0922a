import StackScript.Operator.Basic

/-!
The operations of the machine, each with a code, a name, and what it does to the
height of the stack.
-/

namespace StackScript

inductive Opcode where
  | nop
  | pushInt
  | pushNumber
  | pushNull
  | pushBool
  | pushString
  | pushFunction
  | pushGlobal
  | pop
  | goto
  | ifTrueGoto
  | callDiscard
  | callReturn
  | defineGlobal
  | setGlobal
  | ret
  | add
  | sub
  | mul
  | div
  | mod
  | less
  | lessEqual
  | greater
  | greaterEqual
  | equal
  | notEqual
  | bitAnd
  | bitOr
  | negate
  | not
  | bitNot
  | dup
  deriving DecidableEq, Inhabited

namespace Opcode

/-- The opcodes in the order of their codes. -/
def all : List Opcode :=
  [nop, pushInt, pushNumber, pushNull, pushBool, pushString, pushFunction, pushGlobal, pop,
   goto, ifTrueGoto, callDiscard, callReturn, defineGlobal, setGlobal, ret, add, sub, mul,
   div, mod, less, lessEqual, greater, greaterEqual, equal, notEqual, bitAnd, bitOr, negate,
   not, bitNot, dup]

def code (op : Opcode) : Nat := op.ctorIdx

def ofCode? (code : Nat) : Option Opcode := all[code]?

theorem ofCode?_code (op : Opcode) : ofCode? op.code = some op := by cases op <;> rfl

theorem code_lt (op : Opcode) : op.code < 33 := by cases op <;> decide

theorem code_of_ofCode? {n : Nat} {op : Opcode} (h : ofCode? n = some op) : op.code = n := by
  have hn : n < all.length := (List.getElem?_eq_some_iff.1 h).1
  have hall : ∀ i : Fin 33, (ofCode? i.val).map code = some i.val := by decide
  have := hall ⟨n, hn⟩
  simpa [h] using this

/-- The name of an instruction where code is listed word by word. -/
def name : Opcode → String
  | nop => "Nop"
  | pushInt => "PushConstInt"
  | pushNumber => "PushConstNumber"
  | pushNull => "PushConstNull"
  | pushBool => "PushConstBool"
  | pushString => "PushConstString"
  | pushFunction => "PushLocalFunction"
  | pushGlobal => "PushGlobal"
  | pop => "Pop"
  | goto => "Goto"
  | ifTrueGoto => "IfTrueGoto"
  | callDiscard => "CallFunctionDiscardReturn"
  | callReturn => "CallFunctionWithReturn"
  | defineGlobal => "DefineGlobal"
  | setGlobal => "SetGlobal"
  | ret => "Return"
  | add => "Add"
  | sub => "Sub"
  | mul => "Mul"
  | div => "Div"
  | mod => "Mod"
  | less => "Less"
  | lessEqual => "LessEqual"
  | greater => "Greater"
  | greaterEqual => "GreaterEqual"
  | equal => "Equal"
  | notEqual => "NotEqual"
  | bitAnd => "BitAnd"
  | bitOr => "BitOr"
  | negate => "Negate"
  | not => "Not"
  | bitNot => "BitNot"
  | dup => "Dup"

def ofName? (name : String) : Option Opcode := all.find? fun op => op.name == name

/-- How many values an instruction takes from the stack and how many it leaves
there, seen from the place of a call for the instructions that call. -/
def stackEffect (op : Opcode) (operand : Nat) : Nat × Nat :=
  match op with
  | nop | goto => (0, 0)
  | pushInt | pushNumber | pushNull | pushBool | pushString | pushFunction | pushGlobal => (0, 1)
  | pop => (operand, 0)
  | ifTrueGoto | defineGlobal | setGlobal => (1, 0)
  | add | sub | mul | div | mod | less | lessEqual | greater | greaterEqual | equal | notEqual
  | bitAnd | bitOr => (2, 1)
  | negate | not | bitNot => (1, 1)
  | dup => (1, 2)
  | callDiscard => (operand + 1, 0)
  | callReturn => (operand + 1, 1)
  | ret => (operand, 0)

/-- Whether the operand is the address to go on at. -/
def isJump : Opcode → Bool
  | goto | ifTrueGoto => true
  | _ => false

end Opcode

def BinaryOp.opcode : BinaryOp → Opcode
  | add => .add
  | sub => .sub
  | mul => .mul
  | div => .div
  | mod => .mod
  | less => .less
  | lessEqual => .lessEqual
  | greater => .greater
  | greaterEqual => .greaterEqual
  | equal => .equal
  | notEqual => .notEqual
  | bitAnd => .bitAnd
  | bitOr => .bitOr

def UnaryOp.opcode : UnaryOp → Opcode
  | negate => .negate
  | not => .not
  | bitNot => .bitNot

end StackScript
