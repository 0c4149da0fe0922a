import StackScript.Tree.Basic

/-!
Constants of a tree. A tree that comes from a text has no addresses among them: a
function has an address only once there is code for it.
-/

namespace StackScript

mutual

/-- No address of code stands in the tree as a constant. -/
def Expr.AddressFree : Expr → Prop
  | .literal value _ => ∀ entry, value ≠ .function entry
  | .name _ _ => True
  | .group inner _ => inner.AddressFree
  | .unary _ operand _ => operand.AddressFree
  | .binary _ left right _ => left.AddressFree ∧ right.AddressFree
  | .logical _ left right _ => left.AddressFree ∧ right.AddressFree
  | .function body _ => body.AddressFree
  | .call callee arguments _ => callee.AddressFree ∧ AllAddressFree arguments
  | .index callee arguments _ => callee.AddressFree ∧ AllAddressFree arguments
  | .member parent child _ => parent.AddressFree ∧ child.AddressFree

def AllAddressFree : List Expr → Prop
  | [] => True
  | e :: es => e.AddressFree ∧ AllAddressFree es

def Stmt.AddressFree : Stmt → Prop
  | .empty _ => True
  | .declare _ value _ => value.AddressFree
  | .block body _ => EachAddressFree body
  | .returnNull _ => True
  | .returnValue value _ => value.AddressFree
  | .ifThen condition body _ => condition.AddressFree ∧ body.AddressFree
  | .ifElse condition body other _ =>
    condition.AddressFree ∧ body.AddressFree ∧ other.AddressFree
  | .whileDo condition body _ => condition.AddressFree ∧ body.AddressFree
  | .expression value _ => value.AddressFree
  | .assign target value _ => target.AddressFree ∧ value.AddressFree

def EachAddressFree : List Stmt → Prop
  | [] => True
  | t :: ts => t.AddressFree ∧ EachAddressFree ts

end

theorem EachAddressFree.root {script : Script} (h : EachAddressFree script.statements) :
    script.root.AddressFree := h

end StackScript
