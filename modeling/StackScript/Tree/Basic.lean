import StackScript.Operator.Basic
import StackScript.Value
import StackScript.Position

/-!
Scripts as trees. Every node has the place that messages about it name: that of
the operator for an operation, and the first token of all else. A function takes
its arguments from the host, so it has a body and no parameters.
-/

namespace StackScript

mutual

inductive Expr where
  | binary (op : BinaryOp) (left right : Expr) (position : Position)
  | logical (op : LogicalOp) (left right : Expr) (position : Position)
  | unary (op : UnaryOp) (operand : Expr) (position : Position)
  | group (inner : Expr) (position : Position)
  | literal (value : Value) (position : Position)
  | name (text : String) (position : Position)
  | function (body : Stmt) (position : Position)
  | call (callee : Expr) (arguments : List Expr) (position : Position)
  | index (callee : Expr) (arguments : List Expr) (position : Position)
  | member (parent child : Expr) (position : Position)

inductive Stmt where
  | empty (position : Position)
  | declare (name : String) (value : Expr) (position : Position)
  | block (body : List Stmt) (position : Position)
  | returnNull (position : Position)
  | returnValue (value : Expr) (position : Position)
  | ifThen (condition : Expr) (body : Stmt) (position : Position)
  | ifElse (condition : Expr) (body other : Stmt) (position : Position)
  | whileDo (condition : Expr) (body : Stmt) (position : Position)
  | expression (value : Expr) (position : Position)
  | assign (target value : Expr) (position : Position)

end

instance : Inhabited Expr := ⟨.literal .null default⟩

instance : Inhabited Stmt := ⟨.empty default⟩

def Expr.position : Expr → Position
  | binary _ _ _ p | logical _ _ _ p | unary _ _ p | group _ p | literal _ p | name _ p
  | function _ p | call _ _ p | index _ _ p | member _ _ p => p

def Stmt.position : Stmt → Position
  | empty p | declare _ _ p | block _ p | returnNull p | returnValue _ p | ifThen _ _ p
  | ifElse _ _ _ p | whileDo _ _ p | expression _ p | assign _ _ p => p

/-- The name that a chain of members spells, if it is one: `a.b.c`. -/
def Expr.dotted? : Expr → Option String
  | name text _ => some text
  | member parent child _ => do return (← parent.dotted?) ++ "." ++ (← child.dotted?)
  | _ => none

/-- A whole script. -/
structure Script where
  statements : List Stmt
  /-- The place of the first token. -/
  position : Position
  deriving Inhabited

/-- The script as one block. -/
def Script.root (s : Script) : Stmt := .block s.statements s.position

mutual

/-- How many nodes lie on the longest path down from here. -/
def Expr.height : Expr → Nat
  | .binary _ left right _ => max left.height right.height + 1
  | .logical _ left right _ => max left.height right.height + 1
  | .unary _ operand _ => operand.height + 1
  | .group inner _ => inner.height + 1
  | .literal _ _ => 1
  | .name _ _ => 1
  | .function body _ => body.height + 1
  | .call callee arguments _ => max callee.height (exprsHeight arguments) + 1
  | .index callee arguments _ => max callee.height (exprsHeight arguments) + 1
  | .member parent child _ => max parent.height child.height + 1

def Stmt.height : Stmt → Nat
  | .empty _ => 1
  | .declare _ value _ => value.height + 1
  | .block body _ => stmtsHeight body + 1
  | .returnNull _ => 1
  | .returnValue value _ => value.height + 1
  | .ifThen condition body _ => max condition.height body.height + 1
  | .ifElse condition body other _ =>
    max (max condition.height body.height) other.height + 1
  | .whileDo condition body _ => max condition.height body.height + 1
  | .expression value _ => value.height + 1
  | .assign target value _ => max target.height value.height + 1

def exprsHeight : List Expr → Nat
  | [] => 0
  | e :: es => max e.height (exprsHeight es)

def stmtsHeight : List Stmt → Nat
  | [] => 0
  | s :: ss => max s.height (stmtsHeight ss)

end

end StackScript
