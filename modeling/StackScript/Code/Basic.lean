import StackScript.Code.Command
import StackScript.Position
import StackScript.Single.Basic

/-!
Code for the machine: instructions, the constants that they refer to by number,
and beside each instruction the places in the script that it came from.
-/

namespace StackScript

/-- Where an instruction came from. -/
structure Origin where
  position : Position
  /-- The places of the operands of an operator, from left to right. -/
  operands : List Position := []
  deriving DecidableEq, Inhabited

structure Code where
  instructions : Array Command := #[]
  strings : Array String := #[]
  ints : Array Int32 := #[]
  numbers : Array Single := #[]
  /-- One origin for each instruction. -/
  origins : Array Origin := #[]
  deriving DecidableEq, Inhabited

namespace Code

def size (code : Code) : Nat := code.instructions.size

/-- The place to tell for an instruction that has no origin. -/
def unknownPosition : Position := .ofFile "<bytecode>"

def positionAt (code : Code) (pc : Nat) : Position :=
  match code.origins[pc]? with
  | some origin => origin.position
  | none => unknownPosition

/-- The place of an operand, or that of the whole instruction if it is not known. -/
def operandPositionAt (code : Code) (pc i : Nat) : Position :=
  match code.origins[pc]? with
  | some origin => (origin.operands[i]?).getD origin.position
  | none => unknownPosition

end Code

end StackScript
