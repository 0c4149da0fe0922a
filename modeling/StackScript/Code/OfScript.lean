import StackScript.Code.Emitter
import StackScript.Tree.Text

/-!
Code for a script. A statement leaves the stack as it found it, and an expression
adds one value to it. A function is emitted where it stands, with a jump over it.
-/

namespace StackScript

/-- What a call by name calls: a declared name is a global, and any other path of
names is one of the host's. -/
def Emitter.callee? (m : Emitter) : Expr → Option (Opcode × String)
  | .name text _ => some (if m.declared.contains text then .pushGlobal else .pushString, text)
  | callee => callee.dotted?.map fun path => (.pushString, path)

/-- Puts the callee of a call on the stack, by name where a name calls it and otherwise
as the value of an expression. -/
def Emitter.emitCallee (m : Emitter) (callee : Expr) (value : Emitter → Emitter) : Emitter :=
  match m.callee? callee with
  | some (opcode, text) => m.emitString opcode text callee.position
  | none => value m

mutual

def Expr.emit (m : Emitter) : Expr → Emitter
  | .literal value p => m.emitLiteral value p
  | .name text p => m.emitString .pushGlobal text p
  | .group inner _ => inner.emit m
  | .unary op operand p => (operand.emit m).emitBare op.opcode p [operand.position]
  | .binary op left right p =>
    (right.emit (left.emit m)).emitBare op.opcode p [left.position, right.position]
  | .logical op left right p =>
    let m := (left.emit m).emitBare .dup p
    let m := match op with
      | .and => m.emitBare .not p
      | .or => m
    let m := m.jumpOver .ifTrueGoto p fun m => right.emit (m.emit .pop 1 p)
    (m.emitBare .not p).emitBare .not p
  | .function body p =>
    let entry := m.here + 1
    let m := m.jumpOver .goto p fun m => (body.emit m).emitBare .ret p
    m.emit .pushFunction entry p
  | .call callee arguments p =>
    let m := (emitArguments m arguments).emitCallee callee fun m => callee.emit m
    m.emit .callReturn arguments.length p
  | .index _ _ p =>
    (m.report p .unsupportedExpression "Array access").emitBare .pushNull p
  | .member parent child p =>
    match (Expr.member parent child p).dotted? with
    | some path => m.emitString .pushGlobal path p
    | none => (m.report p .unsupportedExpression "Member access").emitBare .pushNull p

def emitArguments (m : Emitter) : List Expr → Emitter
  | [] => m
  | e :: es => emitArguments (e.emit m) es

def Stmt.emit (m : Emitter) : Stmt → Emitter
  | .empty _ => m
  | .declare name value p => (value.emit (m.declare name)).emitString .defineGlobal name p
  | .block body _ => emitStatements m body
  | .returnNull p => m.emit .ret 0 p
  | .returnValue value p => (value.emit m).emit .ret 1 p
  | .ifThen condition body p =>
    let m := (condition.emit m).emitBare .not p
    m.jumpOver .ifTrueGoto p body.emit
  | .ifElse condition body other p =>
    let m := (condition.emit m).emitBare .not p
    let (lines, m) := m.aside 1 fun m => body.emit m
    let (target, m) := m.operand (m.here + 1 + lines.size + 1) p
    let m := (m.add .ifTrueGoto target p).append lines
    m.jumpOver .goto p other.emit
  | .whileDo condition body p =>
    let start := m.here
    let m := (condition.emit m).emitBare .not p
    let (lines, m) := m.aside 1 fun m => body.emit m
    let (back, m) := m.operand start p
    let (target, m) := m.operand (m.here + 1 + lines.size + 1) p
    ((m.add .ifTrueGoto target p).append lines).add .goto back p
  | .expression (.call callee arguments q) _ =>
    let m := (emitArguments m arguments).emitCallee callee fun m => callee.emit m
    m.emit .callDiscard arguments.length q
  | .expression value p => (value.emit m).emit .pop 1 p
  | .assign (.name text _) value p => (value.emit m).emitString .setGlobal text p
  | .assign target _ _ => m.report target.position .invalidAssignmentTarget target.text

def emitStatements (m : Emitter) : List Stmt → Emitter
  | [] => m
  | s :: ss => emitStatements (s.emit m) ss

end

def Script.emit (s : Script) : Emitter := s.root.emit {}

/-- Code, and what was wrong with the script. The code is of use only if nothing
was. -/
structure Compiled where
  code : Code
  faults : Array Diagnostic

def Script.compile (s : Script) : Compiled :=
  let m := s.emit
  ⟨m.code, m.faults⟩

end StackScript
