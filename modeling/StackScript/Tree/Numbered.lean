import StackScript.Tree.Basic

/-!
Scripts as numbered nodes. Expressions and statements are counted apart, and a
node refers to its children by their numbers. A tree is numbered from its leaves
up and from left to right, so that every child comes before its parent.
-/

namespace StackScript

structure ExprId where
  index : UInt32
  deriving DecidableEq, Inhabited

structure StmtId where
  index : UInt32
  deriving DecidableEq, Inhabited

inductive ExprShape where
  | binary (left : ExprId) (op : BinaryOp) (right : ExprId)
  | logical (left : ExprId) (op : LogicalOp) (right : ExprId)
  | unary (op : UnaryOp) (operand : ExprId)
  | group (inner : ExprId)
  | literal (value : Value)
  | name (text : String)
  | function (body : StmtId)
  | call (callee : ExprId) (arguments : List ExprId)
  | index (callee : ExprId) (arguments : List ExprId)
  | member (parent child : ExprId)
  deriving DecidableEq, Inhabited

inductive StmtShape where
  | empty
  | declare (name : String) (value : ExprId)
  | block (body : List StmtId)
  | returnNull
  | returnValue (value : ExprId)
  | branch (condition : ExprId) (body : StmtId) (other : Option StmtId)
  | whileDo (condition : ExprId) (body : StmtId)
  | expression (value : ExprId)
  | assign (target value : ExprId)
  deriving DecidableEq, Inhabited

structure ExprNode where
  shape : ExprShape
  position : Position
  deriving DecidableEq, Inhabited

structure StmtNode where
  shape : StmtShape
  position : Position
  deriving DecidableEq, Inhabited

structure NodeTable where
  exprs : Array ExprNode := #[]
  stmts : Array StmtNode := #[]
  deriving DecidableEq, Inhabited

namespace NodeTable

def addExpr (t : NodeTable) (shape : ExprShape) (position : Position) : ExprId × NodeTable :=
  (⟨UInt32.ofNat t.exprs.size⟩, { t with exprs := t.exprs.push ⟨shape, position⟩ })

def addStmt (t : NodeTable) (shape : StmtShape) (position : Position) : StmtId × NodeTable :=
  (⟨UInt32.ofNat t.stmts.size⟩, { t with stmts := t.stmts.push ⟨shape, position⟩ })

end NodeTable

mutual

def Expr.number (t : NodeTable) : Expr → ExprId × NodeTable
  | .binary op left right p =>
    let (left, t) := left.number t
    let (right, t) := right.number t
    t.addExpr (.binary left op right) p
  | .logical op left right p =>
    let (left, t) := left.number t
    let (right, t) := right.number t
    t.addExpr (.logical left op right) p
  | .unary op operand p =>
    let (operand, t) := operand.number t
    t.addExpr (.unary op operand) p
  | .group inner p =>
    let (inner, t) := inner.number t
    t.addExpr (.group inner) p
  | .literal value p => t.addExpr (.literal value) p
  | .name text p => t.addExpr (.name text) p
  | .function body p =>
    let (body, t) := body.number t
    t.addExpr (.function body) p
  | .call callee arguments p =>
    let (callee, t) := callee.number t
    let (arguments, t) := numberExprs #[] t arguments
    t.addExpr (.call callee arguments.toList) p
  | .index callee arguments p =>
    let (callee, t) := callee.number t
    let (arguments, t) := numberExprs #[] t arguments
    t.addExpr (.index callee arguments.toList) p
  | .member parent child p =>
    let (parent, t) := parent.number t
    let (child, t) := child.number t
    t.addExpr (.member parent child) p

def Stmt.number (t : NodeTable) : Stmt → StmtId × NodeTable
  | .empty p => t.addStmt .empty p
  | .declare name value p =>
    let (value, t) := value.number t
    t.addStmt (.declare name value) p
  | .block body p =>
    let (body, t) := numberStmts #[] t body
    t.addStmt (.block body.toList) p
  | .returnNull p => t.addStmt .returnNull p
  | .returnValue value p =>
    let (value, t) := value.number t
    t.addStmt (.returnValue value) p
  | .ifThen condition body p =>
    let (condition, t) := condition.number t
    let (body, t) := body.number t
    t.addStmt (.branch condition body none) p
  | .ifElse condition body other p =>
    let (condition, t) := condition.number t
    let (body, t) := body.number t
    let (other, t) := other.number t
    t.addStmt (.branch condition body (some other)) p
  | .whileDo condition body p =>
    let (condition, t) := condition.number t
    let (body, t) := body.number t
    t.addStmt (.whileDo condition body) p
  | .expression value p =>
    let (value, t) := value.number t
    t.addStmt (.expression value) p
  | .assign target value p =>
    let (target, t) := target.number t
    let (value, t) := value.number t
    t.addStmt (.assign target value) p

def numberExprs (ids : Array ExprId) (t : NodeTable) : List Expr → Array ExprId × NodeTable
  | [] => (ids, t)
  | e :: es =>
    let (id, t) := e.number t
    numberExprs (ids.push id) t es

def numberStmts (ids : Array StmtId) (t : NodeTable) : List Stmt → Array StmtId × NodeTable
  | [] => (ids, t)
  | s :: ss =>
    let (id, t) := s.number t
    numberStmts (ids.push id) t ss

end

/-- A script whose nodes have numbers, and the number of its whole. -/
structure NumberedScript where
  table : NodeTable
  root : StmtId
  deriving DecidableEq, Inhabited

def Script.numbered (s : Script) : NumberedScript :=
  let (root, table) := s.root.number {}
  ⟨table, root⟩

end StackScript
