import StackScript.Code.Basic
import StackScript.Single.Text
import StackScript.Text.Quoted
import StackScript.Text.Column

/-!
Code as text. Each instruction has a line with its address; the start of a function
and the target of a jump have a rule above them.
-/

namespace StackScript

namespace Opcode

def mnemonic : Opcode → String
  | nop => "NOP"
  | pushInt => "PUSH_INT"
  | pushNumber => "PUSH_NUMBER"
  | pushNull => "PUSH_NULL"
  | pushBool => "PUSH_BOOL"
  | pushString => "PUSH_STRING"
  | pushFunction => "PUSH_FUN"
  | pushGlobal => "PUSH_GLOBAL"
  | pop => "POP"
  | goto => "GOTO"
  | ifTrueGoto => "IF_TRUE"
  | callDiscard => "CALL"
  | callReturn => "CALL_RET"
  | defineGlobal => "DEFINE"
  | setGlobal => "SET"
  | ret => "RETURN"
  | add => "ADD"
  | sub => "SUB"
  | mul => "MUL"
  | div => "DIV"
  | mod => "MOD"
  | less => "LT"
  | lessEqual => "LE"
  | greater => "GT"
  | greaterEqual => "GE"
  | equal => "EQ"
  | notEqual => "NE"
  | bitAnd => "BIT_AND"
  | bitOr => "BIT_OR"
  | negate => "NEG"
  | not => "NOT"
  | bitNot => "BIT_NOT"
  | dup => "DUP"

end Opcode

namespace Code

def jumpTargets (code : Code) : List Nat :=
  (code.instructions.toList.filter fun c => c.opcode.isJump).map fun c => c.operand.val

/-- The addresses that functions start at. -/
def entries (code : Code) : List Nat :=
  (code.instructions.toList.filter fun c => c.opcode = .pushFunction).map fun c => c.operand.val

/-- How many functions there are. -/
def functionCount (code : Code) : Nat := code.entries.mergeSort.eraseReps.length

/-- For each address up to `size`, whether it is one of those listed. -/
def marks (size : Nat) (addresses : List Nat) : Array Bool :=
  addresses.foldl (fun marked a => marked.setIfInBounds a true) (Array.replicate size false)

def address (n : Nat) : String := Text.alignRight 4 (toString n) '0'

/-- The constant that an instruction refers to. -/
def constantText (constant : Option String) : String := constant.getD "<out of range>"

def commandText (code : Code) (pc : Nat) (c : Command) : String :=
  let index := c.operand.val
  let head := Text.alignLeft 12 c.opcode.mnemonic
  let slot (constant : Option String) : String :=
    head ++ "#" ++ toString index ++ " = " ++ constantText constant
  match c.opcode with
  | .pushInt => slot (code.ints[index]?.map fun i => toString i.toInt)
  | .pushNumber => slot (code.numbers[index]?.map Single.exactText)
  | .pushString => slot (code.strings[index]?.map Text.quote)
  | .pushGlobal | .defineGlobal | .setGlobal => head ++ constantText code.strings[index]?
  | .pushBool => head ++ if index = 0 then "false" else "true"
  | .goto | .ifTrueGoto | .pushFunction =>
    head ++ (if index ≤ pc then "↑ " else "↓ ") ++ address index
  | .pop | .callDiscard | .callReturn | .ret => head ++ toString index
  | _ => c.opcode.mnemonic

/-- The rule above the start of a function or the target of a jump. -/
def ruleText (pc : Nat) (isEntry isTarget : Bool) : String :=
  if isEntry then "      ┌─── fun @" ++ address pc ++ " ───────────────────────\n"
  else if isTarget then "      ┌──────────────────────────────────\n"
  else ""

def originText (code : Code) (pc : Nat) : String :=
  match code.origins[pc]? with
  | some origin =>
    "  ; " ++ toString origin.position.line.toNat ++ ":" ++ toString origin.position.column.toNat
  | none => ""

def lineText (code : Code) (pc : Nat) (c : Command) (isEntry isTarget : Bool) : String :=
  ruleText pc isEntry isTarget ++ address pc ++ (if isTarget then " ► " else "   ") ++
    code.commandText pc c ++ code.originText pc ++ "\n"

def listing (code : Code) : String :=
  let entries := marks code.size code.entries
  let targets := marks code.size code.jumpTargets
  (code.instructions.foldl (fun (out, pc) c =>
    (out ++ code.lineText pc c (entries.getD pc false) (targets.getD pc false), pc + 1))
    ("", 0)).1

def doubleRule : String := String.ofList (List.replicate 40 '═') ++ "\n"

/-- The listing with what there is of instructions and constants above it. -/
def report (code : Code) : String :=
  "=== BYTECODE PROGRAM ===\n\n" ++ doubleRule ++
    " " ++ toString code.size ++ " instructions\n pools: " ++
    toString code.strings.size ++ " string(s), " ++ toString code.ints.size ++ " int(s), " ++
    toString code.numbers.size ++ " number(s)\n" ++ doubleRule ++ code.listing ++ "\n"

end Code

end StackScript
