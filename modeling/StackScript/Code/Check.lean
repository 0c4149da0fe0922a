import StackScript.Code.Basic

/-!
Checks on code that did not come from a script at hand. Every operand has to refer
to something that exists, and a scan of the instructions in order must never take
a value from an empty stack. Jumps are not followed by the scan: in code made from
scripts both ways of a branch leave the stack as they found it.
-/

namespace StackScript

inductive Pool where
  | int
  | number
  | string
  deriving DecidableEq, Inhabited

def Pool.text : Pool → String
  | int => "int"
  | number => "number"
  | string => "string"

inductive CodeFault where
  | originMismatch (instructions origins : Nat)
  | jumpOutOfRange (pc : Nat) (command : Command) (size : Nat)
  | poolIndexOutOfRange (pc : Nat) (command : Command) (pool : Pool) (size : Nat)
  | badOperand (pc : Nat) (command : Command)
  | stackUnderflow (pc : Nat) (command : Command) (needed height : Nat)
  deriving DecidableEq, Inhabited

def CodeFault.message : CodeFault → String
  | originMismatch instructions origins =>
    toString origins ++ " debug entries for " ++ toString instructions ++ " instructions"
  | jumpOutOfRange pc command size =>
    "pc=" ++ toString pc ++ ": " ++ command.text ++ " jumps to " ++
      toString command.operand.val ++ ", past the end at " ++ toString size
  | poolIndexOutOfRange pc command pool size =>
    "pc=" ++ toString pc ++ ": " ++ command.text ++ " refers to " ++ pool.text ++ " slot " ++
      toString command.operand.val ++ ", pool has " ++ toString size
  | badOperand pc command =>
    "pc=" ++ toString pc ++ ": " ++ command.text ++ " has an invalid operand"
  | stackUnderflow pc command needed height =>
    "pc=" ++ toString pc ++ ": stack underflow in " ++ command.text ++ ", needed " ++
      toString needed ++ " with " ++ toString height ++ " available"

namespace Code

def checkSlot (pool : Pool) (size pc : Nat) (command : Command) : Except CodeFault Unit :=
  if command.operand.val < size then .ok ()
  else .error (.poolIndexOutOfRange pc command pool size)

/-- A jump to the end of the code ends the script, so it is in range; a function
starts at an instruction. -/
def checkOperand (code : Code) (pc : Nat) (command : Command) : Except CodeFault Unit :=
  match command.opcode with
  | .pushInt => checkSlot .int code.ints.size pc command
  | .pushNumber => checkSlot .number code.numbers.size pc command
  | .pushString | .pushGlobal | .defineGlobal | .setGlobal =>
    checkSlot .string code.strings.size pc command
  | .goto | .ifTrueGoto =>
    if command.operand.val ≤ code.size then .ok ()
    else .error (.jumpOutOfRange pc command code.size)
  | .pushFunction =>
    if command.operand.val < code.size then .ok ()
    else .error (.jumpOutOfRange pc command code.size)
  | .pushBool | .ret =>
    if command.operand.val ≤ 1 then .ok () else .error (.badOperand pc command)
  | _ => .ok ()

def checkOperands (code : Code) (pc : Nat) : List Command → Except CodeFault Unit
  | [] => .ok ()
  | command :: rest =>
    match code.checkOperand pc command with
    | .ok _ => checkOperands code (pc + 1) rest
    | .error fault => .error fault

/-- The height of the stack behind a list of instructions that is run in order. -/
def scanStack (pc height : Nat) : List Command → Except CodeFault Nat
  | [] => .ok height
  | command :: rest =>
    let (pops, pushes) := command.stackEffect
    if height < pops then .error (.stackUnderflow pc command pops height)
    else scanStack (pc + 1) (height - pops + pushes) rest

def checkStack (code : Code) : Except CodeFault Unit :=
  (scanStack 0 0 code.instructions.toList).map fun _ => ()

def check (code : Code) : Except CodeFault Unit :=
  if code.origins.size ≠ code.size then
    .error (.originMismatch code.size code.origins.size)
  else
    match code.checkOperands 0 code.instructions.toList with
    | .ok _ => code.checkStack
    | .error fault => .error fault

end Code

end StackScript
