import StackScript.Code.Basic
import StackScript.Value
import StackScript.Diagnostic

/-!
Code in the making. Instructions are only ever added behind those already there.
A jump forward is added when its target is known: what it jumps over is emitted
aside, at the addresses that it will have, and added behind the jump.
-/

namespace StackScript

/-- An instruction and where it came from. -/
structure Line where
  command : Command
  origin : Origin
  deriving DecidableEq, Inhabited

structure Emitter where
  /-- The address of the first of `lines`. -/
  start : Nat := 0
  lines : Array Line := #[]
  strings : Array String := #[]
  ints : Array Int32 := #[]
  numbers : Array Single := #[]
  /-- The names declared so far. A call through any other name is left to the host. -/
  declared : List String := []
  faults : Array Diagnostic := #[]
  deriving Inhabited

namespace Emitter

/-- The address of the next instruction. -/
def here (m : Emitter) : Nat := m.start + m.lines.size

def report (m : Emitter) (position : Position) (fault : Fault) (argument : String) : Emitter :=
  { m with faults := m.faults.push (.error position fault [argument]) }

/-- A number as an operand, with a report if it is too large. -/
def operand (m : Emitter) (n : Nat) (position : Position) : Operand × Emitter :=
  match Operand.ofNat? n with
  | .ok operand => (operand, m)
  | .error e => (.zero, m.report position .internalError e.message)

def add (m : Emitter) (opcode : Opcode) (operand : Operand) (position : Position)
    (operands : List Position := []) : Emitter :=
  { m with lines := m.lines.push ⟨⟨opcode, operand⟩, ⟨position, operands⟩⟩ }

/-- Adds an instruction whose operand may be too large. -/
def emit (m : Emitter) (opcode : Opcode) (n : Nat) (position : Position) : Emitter :=
  let (operand, m) := m.operand n position
  m.add opcode operand position

/-- Adds an instruction that needs no operand. -/
def emitBare (m : Emitter) (opcode : Opcode) (position : Position)
    (operands : List Position := []) : Emitter :=
  m.add opcode .zero position operands

/-- Adds an instruction about a string, which gets a slot of its own. -/
def emitString (m : Emitter) (opcode : Opcode) (s : String) (position : Position) : Emitter :=
  let slot := m.strings.size
  { m with strings := m.strings.push s }.emit opcode slot position

def emitInt (m : Emitter) (i : Int32) (position : Position) : Emitter :=
  let slot := m.ints.size
  { m with ints := m.ints.push i }.emit .pushInt slot position

def emitNumber (m : Emitter) (x : Single) (position : Position) : Emitter :=
  let slot := m.numbers.size
  { m with numbers := m.numbers.push x }.emit .pushNumber slot position

def emitLiteral (m : Emitter) (value : Value) (position : Position) : Emitter :=
  match value with
  | .null => m.emitBare .pushNull position
  | .bool b => m.add .pushBool (.ofBool b) position
  | .int i => m.emitInt i position
  | .number x => m.emitNumber x position
  | .string s => m.emitString .pushString s position
  | .function entry => m.emit .pushFunction entry.toNat position

def declare (m : Emitter) (name : String) : Emitter :=
  if m.declared.contains name then m else { m with declared := name :: m.declared }

/-- Emits a part that will stand `gap` instructions further on, and hands its lines
over. Nothing else of the emitter is kept apart. -/
def aside (m : Emitter) (gap : Nat) (part : Emitter → Emitter) : Array Line × Emitter :=
  let start := m.start
  let lines := m.lines
  let inner := part { m with start := start + lines.size + gap, lines := #[] }
  (inner.lines, { inner with start, lines })

def append (m : Emitter) (lines : Array Line) : Emitter := { m with lines := m.lines ++ lines }

/-- A part with a jump over it in front. -/
def jumpOver (m : Emitter) (jump : Opcode) (position : Position)
    (part : Emitter → Emitter) : Emitter :=
  let (lines, m) := m.aside 1 part
  let (target, m) := m.operand (m.here + 1 + lines.size) position
  (m.add jump target position).append lines

def code (m : Emitter) : Code where
  instructions := m.lines.map Line.command
  strings := m.strings
  ints := m.ints
  numbers := m.numbers
  origins := m.lines.map Line.origin

end Emitter

end StackScript
