import StackScript.Machine.Basic
import StackScript.Operator.Apply

/-!
What each instruction does. A failure stops the run with one error, told at the
place of the instruction, and the values that the instruction had taken are gone.
-/

namespace StackScript

variable {σ : Type}

namespace Machine

def fail (s : Setting σ) (m : Machine σ) (fault : Fault) (argument : String) : Progress σ :=
  .failed m #[.error (s.code.positionAt m.pc) fault [argument]]

def underflow (s : Setting σ) (m : Machine σ) : Progress σ :=
  fail s m .internalError "stack underflow"

/-- Where code refers to a constant that it does not have. Checked code never does. -/
def missing (s : Setting σ) (m : Machine σ) : Progress σ :=
  fail s m .internalError "missing constant"

def push (m : Machine σ) (v : Value) : Machine σ := { m with stack := m.stack.push v }

def goto (m : Machine σ) (pc : Nat) : Progress σ := .next { m with pc }

def goOn (m : Machine σ) : Progress σ := m.goto (m.pc + 1)

/-- Takes the top value. -/
def withTop (s : Setting σ) (m : Machine σ) (f : Value → Machine σ → Progress σ) :
    Progress σ :=
  match m.stack.back? with
  | some v => f v { m with stack := m.stack.pop }
  | none => underflow s m

theorem withTop_push {s : Setting σ} {m : Machine σ} {below : Array Value} {v : Value}
    (f : Value → Machine σ → Progress σ) (h : m.stack = below.push v) :
    withTop s m f = f v { m with stack := below } := by
  rw [withTop, h, Array.back?_push]
  simp only [Array.pop_push]

def pushConstant (s : Setting σ) (m : Machine σ) (constant : Option Value) : Progress σ :=
  match constant with
  | some v => (m.push v).goOn
  | none => missing s m

def withName (s : Setting σ) (m : Machine σ) (index : Nat)
    (f : String → Machine σ → Progress σ) : Progress σ :=
  match s.code.strings[index]? with
  | some name => f name m
  | none => missing s m

def unary (s : Setting σ) (m : Machine σ) (op : UnaryOp) : Progress σ :=
  withTop s m fun v m =>
    match op.apply v with
    | .ok result => (m.push result).goOn
    | .error fault =>
      .failed m (op.report fault (s.code.positionAt m.pc) (s.code.operandPositionAt m.pc 0, v))

def binary (s : Setting σ) (m : Machine σ) (op : BinaryOp) : Progress σ :=
  withTop s m fun b m => withTop s m fun a m =>
    match op.apply a b with
    | .ok result => (m.push result).goOn
    | .error fault =>
      .failed m (op.report fault (s.code.positionAt m.pc) (s.code.operandPositionAt m.pc 0, a)
        (s.code.operandPositionAt m.pc 1, b))

/-- The stack behind a call of the host: what was below the arguments, and a value if
one is wanted. The value is the last one pushed, if the host has answered that it
pushed any and the stack is higher than the arguments. -/
def settleReply (reply : HostReply σ) (base count : Nat) (wantsValue : Bool) : Array Value :=
  let result := if 0 < reply.pushed ∧ base + count < reply.stack.size then reply.stack.back?
    else none
  let below := reply.stack.shrink base
  if wantsValue then below.push (result.getD .null) else below

/-- Calls the value on top of the stack with the values below it. -/
def call (s : Setting σ) (m : Machine σ) (count : Nat) (wantsValue : Bool) : Progress σ :=
  withTop s m fun callee m =>
    if m.stack.size < count then underflow s m
    else
      let base := m.stack.size - count
      match callee with
      | .string name =>
        match s.hosts.find? name with
        | some f =>
          let reply := f ⟨m.stack, base, count⟩ m.host
          goOn { m with
            stack := settleReply reply base count wantsValue
            host := reply.state }
        | none => fail s m .unknownFunction name
      | .function entry =>
        if s.limits.callDepth ≤ m.frames.size then
          fail s m .stackOverflow
            ("call depth limit of " ++ toString s.limits.callDepth ++ " exceeded")
        else
          goto { m with frames := m.frames.push ⟨m.pc + 1, base, wantsValue⟩ } entry.toNat
      | other => fail s m .unknownFunction other.text

/-- Closes the innermost call, or ends the run if none is open. -/
def leave (m : Machine σ) (value : Option Value) : Progress σ :=
  match m.frames.back? with
  | some frame =>
    let below := m.stack.shrink frame.base
    goto { m with
      frames := m.frames.pop
      stack := if frame.wantsValue then below.push (value.getD .null) else below } frame.returnTo
  | none => .finished m

/-- Carries out one instruction. -/
def execute (s : Setting σ) (m : Machine σ) (c : Command) : Progress σ :=
  let n := c.operand.val
  match c.opcode with
  | .nop => m.goOn
  | .pushInt => pushConstant s m (s.code.ints[n]?.map .int)
  | .pushNumber => pushConstant s m (s.code.numbers[n]?.map .number)
  | .pushNull => (m.push .null).goOn
  | .pushBool => (m.push (.bool (n != 0))).goOn
  | .pushString => pushConstant s m (s.code.strings[n]?.map .string)
  | .pushFunction => (m.push (.function (UInt32.ofNat n))).goOn
  | .pushGlobal => withName s m n fun name m =>
    match m.globals.find? name with
    | some v => (m.push v).goOn
    | none => fail s m .unknownVariable name
  | .defineGlobal => withTop s m fun v m => withName s m n fun name m =>
    goOn { m with globals := m.globals.put name v }
  | .setGlobal => withTop s m fun v m => withName s m n fun name m =>
    match m.globals.find? name with
    | some _ => goOn { m with globals := m.globals.put name v }
    | none => fail s m .unknownVariable name
  | .pop =>
    if m.stack.size < n then underflow s m
    else goOn { m with stack := m.stack.shrink (m.stack.size - n) }
  | .dup => withTop s m fun v m => ((m.push v).push v).goOn
  | .goto => m.goto n
  | .ifTrueGoto => withTop s m fun v m => if v.isTruthy then m.goto n else m.goOn
  | .callDiscard => call s m n false
  | .callReturn => call s m n true
  | .ret => if n = 1 then withTop s m fun v m => m.leave (some v) else m.leave none
  | .negate => unary s m .negate
  | .not => unary s m .not
  | .bitNot => unary s m .bitNot
  | .add => binary s m .add
  | .sub => binary s m .sub
  | .mul => binary s m .mul
  | .div => binary s m .div
  | .mod => binary s m .mod
  | .less => binary s m .less
  | .lessEqual => binary s m .lessEqual
  | .greater => binary s m .greater
  | .greaterEqual => binary s m .greaterEqual
  | .equal => binary s m .equal
  | .notEqual => binary s m .notEqual
  | .bitAnd => binary s m .bitAnd
  | .bitOr => binary s m .bitOr

/-- Whether the run has had all the steps that it may have. -/
def isOutOfSteps (s : Setting σ) (m : Machine σ) : Option Nat :=
  s.limits.steps.filter fun limit => limit < m.steps

/-- Goes one instruction further, unless a limit has been passed. -/
def step (s : Setting σ) (m : Machine σ) : Progress σ :=
  match s.code.instructions[m.pc]? with
  | none => .finished m
  | some command =>
    let m := { m with steps := m.steps + 1 }
    match isOutOfSteps s m with
    | some limit => fail s m .stepLimitExceeded (toString limit)
    | none =>
      if s.limits.stackSize < m.stack.size then
        fail s m .stackOverflow
          ("stack size limit of " ++ toString s.limits.stackSize ++ " exceeded")
      else execute s m command

end Machine

end StackScript
