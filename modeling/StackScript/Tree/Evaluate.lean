import StackScript.Tree.Basic
import StackScript.Operator.Apply
import StackScript.Log

/-!
The value of an expression without a machine. Only literals and operators have
one; all else, and an operator without a result, is reported and counts as null,
and evaluation goes on.
-/

namespace StackScript

namespace Expr

def unsupported (what : String) (position : Position) (log : Log) : Value × Log :=
  (.null, log.add (.error position .unsupportedExpression [what]))

def evaluate (log : Log) : Expr → Value × Log
  | literal value _ => (value, log)
  | group inner _ => inner.evaluate log
  | unary op operand p =>
    let (v, log) := operand.evaluate log
    match op.apply v with
    | .ok result => (result, log)
    | .error fault => (.null, log.addAll (op.report fault p (operand.position, v)))
  | binary op left right p =>
    let (a, log) := left.evaluate log
    let (b, log) := right.evaluate log
    match op.apply a b with
    | .ok result => (result, log)
    | .error fault =>
      (.null, log.addAll (op.report fault p (left.position, a) (right.position, b)))
  | logical op left right _ =>
    let (a, log) := left.evaluate log
    if op.isSettledBy a.isTruthy then (.bool a.isTruthy, log)
    else
      let (b, log) := right.evaluate log
      (.bool b.isTruthy, log)
  | name _ p => unsupported "Variable lookup" p log
  | function _ p => unsupported "Function definition" p log
  | call _ _ p => unsupported "Function call" p log
  | index _ _ p => unsupported "Array access" p log
  | member _ _ p => unsupported "Member access" p log

end Expr

end StackScript
