import StackScript.Proofs.Grammar.Productions
import StackScript.Tree.Numbered
import StackScript.Tree.Text

/-!
Scripts apart from the places of their nodes. The places say where messages point and
nothing else: the height of a tree, its text and the numbers of its nodes are the same
without them.
-/

namespace StackScript

mutual

/-- The expression with the same place everywhere. -/
def Expr.unplaced : Expr → Expr
  | .binary op left right _ => .binary op left.unplaced right.unplaced default
  | .logical op left right _ => .logical op left.unplaced right.unplaced default
  | .unary op operand _ => .unary op operand.unplaced default
  | .group inner _ => .group inner.unplaced default
  | .literal value _ => .literal value default
  | .name text _ => .name text default
  | .function body _ => .function body.unplaced default
  | .call callee arguments _ => .call callee.unplaced (exprsUnplaced arguments) default
  | .index callee arguments _ => .index callee.unplaced (exprsUnplaced arguments) default
  | .member parent child _ => .member parent.unplaced child.unplaced default

def exprsUnplaced : List Expr → List Expr
  | [] => []
  | e :: es => e.unplaced :: exprsUnplaced es

def Stmt.unplaced : Stmt → Stmt
  | .empty _ => .empty default
  | .declare name value _ => .declare name value.unplaced default
  | .block body _ => .block (stmtsUnplaced body) default
  | .returnNull _ => .returnNull default
  | .returnValue value _ => .returnValue value.unplaced default
  | .ifThen condition body _ => .ifThen condition.unplaced body.unplaced default
  | .ifElse condition body other _ =>
    .ifElse condition.unplaced body.unplaced other.unplaced default
  | .whileDo condition body _ => .whileDo condition.unplaced body.unplaced default
  | .expression value _ => .expression value.unplaced default
  | .assign target value _ => .assign target.unplaced value.unplaced default

def stmtsUnplaced : List Stmt → List Stmt
  | [] => []
  | s :: ss => s.unplaced :: stmtsUnplaced ss

end

theorem exprsUnplaced_eq_map (es : List Expr) : exprsUnplaced es = es.map Expr.unplaced := by
  induction es with
  | nil => rfl
  | cons e es ih => rw [exprsUnplaced, ih, List.map_cons]

theorem stmtsUnplaced_eq_map (ss : List Stmt) : stmtsUnplaced ss = ss.map Stmt.unplaced := by
  induction ss with
  | nil => rfl
  | cons s ss ih => rw [stmtsUnplaced, ih, List.map_cons]

theorem Stmt.endsOpen_unplaced (s : Stmt) : s.unplaced.endsOpen = s.endsOpen := by
  fun_induction Stmt.endsOpen s with
  | case1 => rfl
  | case2 _ _ _ _ ih => exact ih
  | case3 _ _ _ ih => exact ih
  | case4 s hthen helse hwhile =>
    cases s with
    | ifThen condition body p => exact absurd rfl (hthen condition body p)
    | ifElse condition body other p => exact absurd rfl (helse condition body other p)
    | whileDo condition body p => exact absurd rfl (hwhile condition body p)
    | _ => rfl

section Height

mutual

theorem Expr.height_unplaced : ∀ e : Expr, e.unplaced.height = e.height
  | .binary _ left right _ => by
    simp only [Expr.unplaced, Expr.height, left.height_unplaced, right.height_unplaced]
  | .logical _ left right _ => by
    simp only [Expr.unplaced, Expr.height, left.height_unplaced, right.height_unplaced]
  | .unary _ operand _ => by simp only [Expr.unplaced, Expr.height, operand.height_unplaced]
  | .group inner _ => by simp only [Expr.unplaced, Expr.height, inner.height_unplaced]
  | .literal _ _ => rfl
  | .name _ _ => rfl
  | .function body _ => by simp only [Expr.unplaced, Expr.height, body.height_unplaced]
  | .call callee arguments _ => by
    simp only [Expr.unplaced, Expr.height, callee.height_unplaced, exprsHeight_unplaced arguments]
  | .index callee arguments _ => by
    simp only [Expr.unplaced, Expr.height, callee.height_unplaced, exprsHeight_unplaced arguments]
  | .member parent child _ => by
    simp only [Expr.unplaced, Expr.height, parent.height_unplaced, child.height_unplaced]

theorem exprsHeight_unplaced : ∀ es : List Expr, exprsHeight (exprsUnplaced es) = exprsHeight es
  | [] => rfl
  | e :: es => by
    simp only [exprsUnplaced, exprsHeight, e.height_unplaced, exprsHeight_unplaced es]

theorem Stmt.height_unplaced : ∀ s : Stmt, s.unplaced.height = s.height
  | .empty _ => rfl
  | .declare _ value _ => by simp only [Stmt.unplaced, Stmt.height, value.height_unplaced]
  | .block body _ => by simp only [Stmt.unplaced, Stmt.height, stmtsHeight_unplaced body]
  | .returnNull _ => rfl
  | .returnValue value _ => by simp only [Stmt.unplaced, Stmt.height, value.height_unplaced]
  | .ifThen condition body _ => by
    simp only [Stmt.unplaced, Stmt.height, condition.height_unplaced, body.height_unplaced]
  | .ifElse condition body other _ => by
    simp only [Stmt.unplaced, Stmt.height, condition.height_unplaced, body.height_unplaced,
      other.height_unplaced]
  | .whileDo condition body _ => by
    simp only [Stmt.unplaced, Stmt.height, condition.height_unplaced, body.height_unplaced]
  | .expression value _ => by simp only [Stmt.unplaced, Stmt.height, value.height_unplaced]
  | .assign target value _ => by
    simp only [Stmt.unplaced, Stmt.height, target.height_unplaced, value.height_unplaced]

theorem stmtsHeight_unplaced : ∀ ss : List Stmt, stmtsHeight (stmtsUnplaced ss) = stmtsHeight ss
  | [] => rfl
  | s :: ss => by
    simp only [stmtsUnplaced, stmtsHeight, s.height_unplaced, stmtsHeight_unplaced ss]

end

end Height

section Text

theorem Stmt.bodyIndent_unplaced (indent : Nat) (s : Stmt) :
    s.unplaced.bodyIndent indent = s.bodyIndent indent := by
  cases s <;> rfl

mutual

theorem Expr.write_unplaced (indent : Nat) (out : String) :
    ∀ e : Expr, e.unplaced.write indent out = e.write indent out
  | .binary _ left right _ => by
    simp only [Expr.unplaced, Expr.write, left.write_unplaced, right.write_unplaced]
  | .logical _ left right _ => by
    simp only [Expr.unplaced, Expr.write, left.write_unplaced, right.write_unplaced]
  | .unary _ operand _ => by simp only [Expr.unplaced, Expr.write, operand.write_unplaced]
  | .group inner _ => by simp only [Expr.unplaced, Expr.write, inner.write_unplaced]
  | .literal _ _ => by simp only [Expr.unplaced, Expr.write]
  | .name _ _ => by simp only [Expr.unplaced, Expr.write]
  | .function body _ => by
    have hbody := body.write_unplaced 0 (out ++ "fun() ")
    cases body with
    | block ss q => simp only [Expr.unplaced, Stmt.unplaced, Expr.write, writeLines_unplaced]
    | _ => simpa only [Expr.unplaced, Stmt.unplaced, Expr.write] using hbody
  | .call callee arguments _ => by
    simp only [Expr.unplaced, Expr.write, callee.write_unplaced, writeArguments_unplaced]
  | .index callee arguments _ => by
    simp only [Expr.unplaced, Expr.write, callee.write_unplaced, writeArguments_unplaced]
  | .member parent child _ => by
    simp only [Expr.unplaced, Expr.write, parent.write_unplaced, child.write_unplaced]

theorem writeArguments_unplaced (indent : Nat) (out : String) :
    ∀ es : List Expr, writeArguments indent out (exprsUnplaced es) = writeArguments indent out es
  | [] => rfl
  | [e] => by simp only [exprsUnplaced, writeArguments, e.write_unplaced]
  | e :: e' :: es => by
    simpa only [exprsUnplaced, writeArguments, e.write_unplaced] using
      writeArguments_unplaced indent (e.write indent out ++ ", ") (e' :: es)

theorem Stmt.write_unplaced (indent : Nat) (out : String) :
    ∀ s : Stmt, s.unplaced.write indent out = s.write indent out
  | .empty _ => by simp only [Stmt.unplaced, Stmt.write]
  | .declare _ value _ => by simp only [Stmt.unplaced, Stmt.write, value.write_unplaced]
  | .block body _ => by simp only [Stmt.unplaced, Stmt.write, writeLines_unplaced]
  | .returnNull _ => by simp only [Stmt.unplaced, Stmt.write]
  | .returnValue value _ => by simp only [Stmt.unplaced, Stmt.write, value.write_unplaced]
  | .ifThen condition body _ => by
    simp only [Stmt.unplaced, Stmt.write, Stmt.bodyIndent_unplaced, condition.write_unplaced,
      body.write_unplaced]
  | .ifElse condition body other _ => by
    simp only [Stmt.unplaced, Stmt.write, Stmt.bodyIndent_unplaced, condition.write_unplaced,
      body.write_unplaced, other.write_unplaced]
  | .whileDo condition body _ => by
    simp only [Stmt.unplaced, Stmt.write, Stmt.bodyIndent_unplaced, condition.write_unplaced,
      body.write_unplaced]
  | .expression value _ => by simp only [Stmt.unplaced, Stmt.write, value.write_unplaced]
  | .assign target value _ => by
    simp only [Stmt.unplaced, Stmt.write, target.write_unplaced, value.write_unplaced]

theorem writeLines_unplaced (indent : Nat) (out : String) :
    ∀ ss : List Stmt, writeLines indent out (stmtsUnplaced ss) = writeLines indent out ss
  | [] => rfl
  | s :: ss => by
    simp only [stmtsUnplaced, writeLines, s.write_unplaced, writeLines_unplaced]

end

end Text

section Numbers

namespace NodeTable

/-- The table with the same place for every node. -/
def unplaced (t : NodeTable) : NodeTable :=
  { exprs := t.exprs.map fun node => { node with position := default }
    stmts := t.stmts.map fun node => { node with position := default } }

theorem addExpr_unplaced (t : NodeTable) (shape : ExprShape) (p : Position) :
    t.unplaced.addExpr shape default = ((t.addExpr shape p).1, (t.addExpr shape p).2.unplaced) := by
  simp [unplaced, addExpr]

theorem addStmt_unplaced (t : NodeTable) (shape : StmtShape) (p : Position) :
    t.unplaced.addStmt shape default = ((t.addStmt shape p).1, (t.addStmt shape p).2.unplaced) := by
  simp [unplaced, addStmt]

end NodeTable

mutual

theorem Expr.number_unplaced (t : NodeTable) :
    ∀ e : Expr, e.unplaced.number t.unplaced = ((e.number t).1, (e.number t).2.unplaced)
  | .binary _ left right p => by
    simp only [Expr.unplaced, Expr.number, left.number_unplaced, right.number_unplaced,
      NodeTable.addExpr_unplaced _ _ p]
  | .logical _ left right p => by
    simp only [Expr.unplaced, Expr.number, left.number_unplaced, right.number_unplaced,
      NodeTable.addExpr_unplaced _ _ p]
  | .unary _ operand p => by
    simp only [Expr.unplaced, Expr.number, operand.number_unplaced,
      NodeTable.addExpr_unplaced _ _ p]
  | .group inner p => by
    simp only [Expr.unplaced, Expr.number, inner.number_unplaced,
      NodeTable.addExpr_unplaced _ _ p]
  | .literal _ p => NodeTable.addExpr_unplaced _ _ p
  | .name _ p => NodeTable.addExpr_unplaced _ _ p
  | .function body p => by
    simp only [Expr.unplaced, Expr.number, body.number_unplaced,
      NodeTable.addExpr_unplaced _ _ p]
  | .call callee arguments p => by
    simp only [Expr.unplaced, Expr.number, callee.number_unplaced, numberExprs_unplaced,
      NodeTable.addExpr_unplaced _ _ p]
  | .index callee arguments p => by
    simp only [Expr.unplaced, Expr.number, callee.number_unplaced, numberExprs_unplaced,
      NodeTable.addExpr_unplaced _ _ p]
  | .member parent child p => by
    simp only [Expr.unplaced, Expr.number, parent.number_unplaced, child.number_unplaced,
      NodeTable.addExpr_unplaced _ _ p]

theorem numberExprs_unplaced (ids : Array ExprId) (t : NodeTable) :
    ∀ es : List Expr, numberExprs ids t.unplaced (exprsUnplaced es) =
      ((numberExprs ids t es).1, (numberExprs ids t es).2.unplaced)
  | [] => rfl
  | e :: es => by
    simp only [exprsUnplaced, numberExprs, e.number_unplaced, numberExprs_unplaced]

theorem Stmt.number_unplaced (t : NodeTable) :
    ∀ s : Stmt, s.unplaced.number t.unplaced = ((s.number t).1, (s.number t).2.unplaced)
  | .empty p => NodeTable.addStmt_unplaced _ _ p
  | .declare _ value p => by
    simp only [Stmt.unplaced, Stmt.number, value.number_unplaced,
      NodeTable.addStmt_unplaced _ _ p]
  | .block body p => by
    simp only [Stmt.unplaced, Stmt.number, numberStmts_unplaced, NodeTable.addStmt_unplaced _ _ p]
  | .returnNull p => NodeTable.addStmt_unplaced _ _ p
  | .returnValue value p => by
    simp only [Stmt.unplaced, Stmt.number, value.number_unplaced,
      NodeTable.addStmt_unplaced _ _ p]
  | .ifThen condition body p => by
    simp only [Stmt.unplaced, Stmt.number, condition.number_unplaced, body.number_unplaced,
      NodeTable.addStmt_unplaced _ _ p]
  | .ifElse condition body other p => by
    simp only [Stmt.unplaced, Stmt.number, condition.number_unplaced, body.number_unplaced,
      other.number_unplaced, NodeTable.addStmt_unplaced _ _ p]
  | .whileDo condition body p => by
    simp only [Stmt.unplaced, Stmt.number, condition.number_unplaced, body.number_unplaced,
      NodeTable.addStmt_unplaced _ _ p]
  | .expression value p => by
    simp only [Stmt.unplaced, Stmt.number, value.number_unplaced,
      NodeTable.addStmt_unplaced _ _ p]
  | .assign target value p => by
    simp only [Stmt.unplaced, Stmt.number, target.number_unplaced, value.number_unplaced,
      NodeTable.addStmt_unplaced _ _ p]

theorem numberStmts_unplaced (ids : Array StmtId) (t : NodeTable) :
    ∀ ss : List Stmt, numberStmts ids t.unplaced (stmtsUnplaced ss) =
      ((numberStmts ids t ss).1, (numberStmts ids t ss).2.unplaced)
  | [] => rfl
  | s :: ss => by
    simp only [stmtsUnplaced, numberStmts, s.number_unplaced, numberStmts_unplaced]

end

/-- The numbered script with the same place for every node. -/
def NumberedScript.unplaced (s : NumberedScript) : NumberedScript :=
  { s with table := s.table.unplaced }

theorem Script.numbered_unplaced (s : Script) :
    s.numbered.unplaced = Script.numbered ⟨stmtsUnplaced s.statements, default⟩ := by
  have hroot := s.root.number_unplaced {}
  have hempty : NodeTable.unplaced {} = {} := by simp [NodeTable.unplaced]
  rw [hempty] at hroot
  change NumberedScript.mk (s.root.number {}).2.unplaced (s.root.number {}).1 =
    NumberedScript.mk (s.root.unplaced.number {}).2 (s.root.unplaced.number {}).1
  rw [hroot]

end Numbers

end StackScript
