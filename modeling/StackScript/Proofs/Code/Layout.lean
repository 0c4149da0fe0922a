import StackScript.Code.OfScript

/-!
Where the code for each part of a script lies. A part is laid out at an address if
the instructions, constants and places that it needs stand there, those of its own
parts among them. Which instructions a part needs depends on the names that were
declared in front of it, so both are kept together.
-/

namespace StackScript

/-- A place in a script: the address of the next instruction there, and the names that
have been declared so far. -/
structure Scope where
  address : Nat := 0
  declared : List String := []

namespace Scope

def skip (s : Scope) (n : Nat) : Scope := { s with address := s.address + n }

def declare (s : Scope) (name : String) : Scope :=
  if s.declared.contains name then s else { s with declared := name :: s.declared }

/-- What a call by name calls at this place. -/
def callee? (s : Scope) : Expr → Option (Opcode × String)
  | .name text _ => some (if s.declared.contains text then .pushGlobal else .pushString, text)
  | callee => callee.dotted?.map fun path => (.pushString, path)

theorem callee?_opcode {s : Scope} {callee : Expr} {opcode : Opcode} {text : String}
    (h : s.callee? callee = some (opcode, text)) :
    opcode = .pushString ∨ opcode = .pushGlobal := by
  unfold callee? at h
  split at h
  · split at h <;> cases h
    · exact .inr rfl
    · exact .inl rfl
  · obtain ⟨path, -, hpath⟩ := Option.map_eq_some_iff.1 h
    cases hpath
    exact .inl rfl

/-- The place behind the callee of a call. -/
def behindCallee (s : Scope) (callee : Expr) (value : Scope → Scope) : Scope :=
  match s.callee? callee with
  | some _ => s.skip 1
  | none => value s

@[simp] theorem address_skip (s : Scope) (n : Nat) : (s.skip n).address = s.address + n := rfl

@[simp] theorem skip_skip (s : Scope) (n k : Nat) : (s.skip n).skip k = s.skip (n + k) := by
  simp [skip, Nat.add_assoc]

@[simp] theorem address_declare (s : Scope) (name : String) :
    (s.declare name).address = s.address := by
  unfold declare
  split <;> rfl

end Scope

/-- How many instructions stand between the operands. -/
def LogicalOp.gap : LogicalOp → Nat
  | and => 4
  | or => 3

mutual

/-- The place behind an expression. -/
def Expr.behind (s : Scope) : Expr → Scope
  | .literal _ _ => s.skip 1
  | .name _ _ => s.skip 1
  | .group inner _ => inner.behind s
  | .unary _ operand _ => (operand.behind s).skip 1
  | .binary _ left right _ => (right.behind (left.behind s)).skip 1
  | .logical op left right _ => (right.behind ((left.behind s).skip op.gap)).skip 2
  | .function body _ => (body.behind (s.skip 1)).skip 2
  | .call callee arguments _ =>
    ((argumentsBehind s arguments).behindCallee callee fun s => callee.behind s).skip 1
  | .index _ _ _ => s.skip 1
  | .member _ _ _ => s.skip 1

def argumentsBehind (s : Scope) : List Expr → Scope
  | [] => s
  | e :: es => argumentsBehind (e.behind s) es

/-- The place behind a statement. -/
def Stmt.behind (s : Scope) : Stmt → Scope
  | .empty _ => s
  | .declare name value _ => (value.behind (s.declare name)).skip 1
  | .block body _ => statementsBehind s body
  | .returnNull _ => s.skip 1
  | .returnValue value _ => (value.behind s).skip 1
  | .ifThen condition body _ => body.behind ((condition.behind s).skip 2)
  | .ifElse condition body other _ =>
    other.behind ((body.behind ((condition.behind s).skip 2)).skip 1)
  | .whileDo condition body _ => (body.behind ((condition.behind s).skip 2)).skip 1
  | .expression (.call callee arguments _) _ =>
    ((argumentsBehind s arguments).behindCallee callee fun s => callee.behind s).skip 1
  | .expression value _ => (value.behind s).skip 1
  | .assign (.name _ _) value _ => (value.behind s).skip 1
  | .assign _ _ _ => s

def statementsBehind (s : Scope) : List Stmt → Scope
  | [] => s
  | t :: ts => statementsBehind (t.behind s) ts

end

namespace Code

/-- The code has this instruction at this address, from these places. -/
def Holds (code : Code) (address : Nat) (opcode : Opcode) (n : Nat) (position : Position)
    (operands : List Position := []) : Prop :=
  ∃ operand : Operand, code.instructions[address]? = some ⟨opcode, operand⟩ ∧
    operand.val = n ∧ code.origins[address]? = some ⟨position, operands⟩

/-- The code has an instruction about this text at this address. -/
def HoldsText (code : Code) (address : Nat) (opcode : Opcode) (text : String)
    (position : Position) : Prop :=
  ∃ slot, code.Holds address opcode slot position ∧ code.strings[slot]? = some text

/-- The code puts a constant on the stack. The only functions that a script puts there
are its own. -/
def HoldsLiteral (code : Code) (address : Nat) (position : Position) : Value → Prop
  | .null => code.Holds address .pushNull 0 position
  | .bool b => code.Holds address .pushBool b.toNat position
  | .int i => ∃ slot, code.Holds address .pushInt slot position ∧ code.ints[slot]? = some i
  | .number x =>
    ∃ slot, code.Holds address .pushNumber slot position ∧ code.numbers[slot]? = some x
  | .string s => code.HoldsText address .pushString s position
  | .function _ => False

/-- The code tests the left operand and leaves for `target` if that settles the
result. -/
def HoldsTest (code : Code) (address target : Nat) (position : Position) : LogicalOp → Prop
  | .and =>
    code.Holds address .dup 0 position ∧ code.Holds (address + 1) .not 0 position ∧
      code.Holds (address + 2) .ifTrueGoto target position ∧
      code.Holds (address + 3) .pop 1 position
  | .or =>
    code.Holds address .dup 0 position ∧ code.Holds (address + 1) .ifTrueGoto target position ∧
      code.Holds (address + 2) .pop 1 position

/-- The code leaves for `target` unless the condition holds. -/
def HoldsBranch (code : Code) (address target : Nat) (position : Position) : Prop :=
  code.Holds address .not 0 position ∧ code.Holds (address + 1) .ifTrueGoto target position

/-- The code puts the callee of a call on the stack. -/
def HoldsCallee (code : Code) (s : Scope) (callee : Expr) (value : Prop) : Prop :=
  match s.callee? callee with
  | some (opcode, text) => code.HoldsText s.address opcode text callee.position
  | none => value

end Code

mutual

/-- The code for an expression stands at this place. -/
def Expr.Laid (code : Code) (s : Scope) : Expr → Prop
  | .literal value p => code.HoldsLiteral s.address p value
  | .name text p => code.HoldsText s.address .pushGlobal text p
  | .group inner _ => inner.Laid code s
  | .unary op operand p =>
    operand.Laid code s ∧
      code.Holds (operand.behind s).address op.opcode 0 p [operand.position]
  | .binary op left right p =>
    left.Laid code s ∧ right.Laid code (left.behind s) ∧
      code.Holds (right.behind (left.behind s)).address op.opcode 0 p
        [left.position, right.position]
  | .logical op left right p =>
    left.Laid code s ∧
      code.HoldsTest (left.behind s).address
        (right.behind ((left.behind s).skip op.gap)).address p op ∧
      right.Laid code ((left.behind s).skip op.gap) ∧
      code.Holds (right.behind ((left.behind s).skip op.gap)).address .not 0 p ∧
      code.Holds ((right.behind ((left.behind s).skip op.gap)).address + 1) .not 0 p
  | .function body p =>
    code.Holds s.address .goto ((body.behind (s.skip 1)).address + 1) p ∧
      body.Laid code (s.skip 1) ∧
      code.Holds (body.behind (s.skip 1)).address .ret 0 p ∧
      code.Holds ((body.behind (s.skip 1)).address + 1) .pushFunction (s.address + 1) p
  | .call callee arguments p =>
    ArgumentsLaid code s arguments ∧
      code.HoldsCallee (argumentsBehind s arguments) callee
        (callee.Laid code (argumentsBehind s arguments)) ∧
      code.Holds
        ((argumentsBehind s arguments).behindCallee callee fun s => callee.behind s).address
        .callReturn arguments.length p
  | .index _ _ _ => False
  | .member parent child p =>
    match (Expr.member parent child p).dotted? with
    | some path => code.HoldsText s.address .pushGlobal path p
    | none => False

def ArgumentsLaid (code : Code) (s : Scope) : List Expr → Prop
  | [] => True
  | e :: es => e.Laid code s ∧ ArgumentsLaid code (e.behind s) es

/-- The code for a statement stands at this place. -/
def Stmt.Laid (code : Code) (s : Scope) : Stmt → Prop
  | .empty _ => True
  | .declare name value p =>
    value.Laid code (s.declare name) ∧
      code.HoldsText (value.behind (s.declare name)).address .defineGlobal name p
  | .block body _ => StatementsLaid code s body
  | .returnNull p => code.Holds s.address .ret 0 p
  | .returnValue value p =>
    value.Laid code s ∧ code.Holds (value.behind s).address .ret 1 p
  | .ifThen condition body p =>
    condition.Laid code s ∧
      code.HoldsBranch (condition.behind s).address
        (body.behind ((condition.behind s).skip 2)).address p ∧
      body.Laid code ((condition.behind s).skip 2)
  | .ifElse condition body other p =>
    condition.Laid code s ∧
      code.HoldsBranch (condition.behind s).address
        ((body.behind ((condition.behind s).skip 2)).address + 1) p ∧
      body.Laid code ((condition.behind s).skip 2) ∧
      code.Holds (body.behind ((condition.behind s).skip 2)).address .goto
        (other.behind ((body.behind ((condition.behind s).skip 2)).skip 1)).address p ∧
      other.Laid code ((body.behind ((condition.behind s).skip 2)).skip 1)
  | .whileDo condition body p =>
    condition.Laid code s ∧
      code.HoldsBranch (condition.behind s).address
        ((body.behind ((condition.behind s).skip 2)).address + 1) p ∧
      body.Laid code ((condition.behind s).skip 2) ∧
      code.Holds (body.behind ((condition.behind s).skip 2)).address .goto s.address p
  | .expression (.call callee arguments q) _ =>
    ArgumentsLaid code s arguments ∧
      code.HoldsCallee (argumentsBehind s arguments) callee
        (callee.Laid code (argumentsBehind s arguments)) ∧
      code.Holds
        ((argumentsBehind s arguments).behindCallee callee fun s => callee.behind s).address
        .callDiscard arguments.length q
  | .expression value p =>
    value.Laid code s ∧ code.Holds (value.behind s).address .pop 1 p
  | .assign (.name text _) value p =>
    value.Laid code s ∧ code.HoldsText (value.behind s).address .setGlobal text p
  | .assign _ _ _ => False

def StatementsLaid (code : Code) (s : Scope) : List Stmt → Prop
  | [] => True
  | t :: ts => t.Laid code s ∧ StatementsLaid code (t.behind s) ts

end

end StackScript
