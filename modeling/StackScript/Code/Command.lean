import StackScript.Code.Opcode

/-!
Instructions of the machine. An instruction is an operation with one operand, and
both fit into a word of 32 bits: six for the operation and 26 for the operand.
-/

namespace StackScript

/-- Why there is no such instruction. -/
inductive CommandError where
  | operandOutOfRange (operand : Nat)
  | unknownOpcode (code : Nat)
  deriving DecidableEq, Inhabited

def CommandError.message : CommandError → String
  | operandOutOfRange operand => "operand " ++ toString operand ++ " does not fit in 26 bits"
  | unknownOpcode code => "unknown opcode " ++ toString code

/-- One more than the largest operand. -/
def operandLimit : Nat := 0x4000000

abbrev Operand := Fin operandLimit

namespace Operand

def zero : Operand := ⟨0, by decide⟩

def ofNat? (n : Nat) : Except CommandError Operand :=
  if h : n < operandLimit then .ok ⟨n, h⟩ else .error (.operandOutOfRange n)

def ofBool (b : Bool) : Operand := if b then ⟨1, by decide⟩ else zero

end Operand

structure Command where
  opcode : Opcode
  operand : Operand := .zero
  deriving DecidableEq

namespace Command

instance : Inhabited Command := ⟨{ opcode := .nop }⟩

def toNat (c : Command) : Nat := c.opcode.code * operandLimit + c.operand.val

def word (c : Command) : UInt32 := UInt32.ofNat c.toNat

def ofWord? (w : UInt32) : Except CommandError Command :=
  let code := w.toNat / operandLimit
  match Opcode.ofCode? code with
  | some opcode => .ok ⟨opcode, ⟨w.toNat % operandLimit, Nat.mod_lt _ (by decide)⟩⟩
  | none => .error (.unknownOpcode code)

def text (c : Command) : String := c.opcode.name ++ " " ++ toString c.operand.val

def stackEffect (c : Command) : Nat × Nat := c.opcode.stackEffect c.operand.val

end Command

end StackScript
