import StackScript.Diagnostic
import StackScript.Proofs.Tree.Induction
import StackScript.Token

/-!
Tokens, entries and trees at other places. Moving the places changes nothing else about them.
-/

namespace StackScript

variable (place : Position → Position)

def Token.moved (t : Token) : Token := { t with position := place t.position }

def Diagnostic.moved (d : Diagnostic) : Diagnostic := { d with position := place d.position }

mutual

/-- The expression with each node moved to another place. -/
def Expr.moved : Expr → Expr
  | .binary op left right p => .binary op left.moved right.moved (place p)
  | .logical op left right p => .logical op left.moved right.moved (place p)
  | .unary op operand p => .unary op operand.moved (place p)
  | .group inner p => .group inner.moved (place p)
  | .literal value p => .literal value (place p)
  | .name text p => .name text (place p)
  | .function body p => .function body.moved (place p)
  | .call callee arguments p => .call callee.moved (exprsMoved arguments) (place p)
  | .index callee arguments p => .index callee.moved (exprsMoved arguments) (place p)
  | .member parent child p => .member parent.moved child.moved (place p)

def exprsMoved : List Expr → List Expr
  | [] => []
  | e :: es => e.moved :: exprsMoved es

def Stmt.moved : Stmt → Stmt
  | .empty p => .empty (place p)
  | .declare name value p => .declare name value.moved (place p)
  | .block body p => .block (stmtsMoved body) (place p)
  | .returnNull p => .returnNull (place p)
  | .returnValue value p => .returnValue value.moved (place p)
  | .ifThen condition body p => .ifThen condition.moved body.moved (place p)
  | .ifElse condition body other p =>
    .ifElse condition.moved body.moved other.moved (place p)
  | .whileDo condition body p => .whileDo condition.moved body.moved (place p)
  | .expression value p => .expression value.moved (place p)
  | .assign target value p => .assign target.moved value.moved (place p)

def stmtsMoved : List Stmt → List Stmt
  | [] => []
  | s :: ss => s.moved :: stmtsMoved ss

end

theorem exprsMoved_eq_map (es : List Expr) : exprsMoved place es = es.map (Expr.moved place) := by
  induction es with
  | nil => rfl
  | cons e es ih => rw [exprsMoved, ih, List.map_cons]

theorem stmtsMoved_eq_map (ss : List Stmt) : stmtsMoved place ss = ss.map (Stmt.moved place) := by
  induction ss with
  | nil => rfl
  | cons s ss ih => rw [stmtsMoved, ih, List.map_cons]

theorem Expr.position_moved (e : Expr) : (e.moved place).position = place e.position := by
  cases e <;> rfl

theorem map_eq_self {α : Type} {f : α → α} {as : List α} (h : ∀ a ∈ as, f a = a) :
    as.map f = as := by
  rw [List.map_congr_left h, List.map_id']

/-- A tree whose nodes all stay where they are stays the same. -/
theorem Tree.moved_id : Tree.Cases (fun e => e.moved id = e) (fun s => s.moved id = s) := by
  constructor
  case call | index =>
    intro callee arguments p hcallee harguments
    rw [Expr.moved, exprsMoved_eq_map, hcallee, map_eq_self harguments, id_eq]
  case discard =>
    intro callee arguments q p hcallee harguments
    rw [Stmt.moved, Expr.moved, exprsMoved_eq_map, hcallee, map_eq_self harguments, id_eq, id_eq]
  case block =>
    intro body p hbody
    rw [Stmt.moved, stmtsMoved_eq_map, map_eq_self hbody, id_eq]
  all_goals simp +contextual [Expr.moved, Stmt.moved]

@[simp] theorem Expr.moved_id (e : Expr) : e.moved id = e := Tree.moved_id.expr e

@[simp] theorem Stmt.moved_id (s : Stmt) : s.moved id = s := Tree.moved_id.stmt s

end StackScript
