import StackScript.Tree.Basic

/-!
Induction over the expressions and the statements of a script together. There is one
case for each kind of node, and two for those that are treated in two ways: a call
whose value is not wanted stands apart from other expressions, and an assignment to
a name from one to anything else.
-/

namespace StackScript

structure Tree.Cases (P : Expr → Prop) (Q : Stmt → Prop) : Prop where
  literal : ∀ value p, P (.literal value p)
  name : ∀ text p, P (.name text p)
  group : ∀ inner p, P inner → P (.group inner p)
  unary : ∀ op operand p, P operand → P (.unary op operand p)
  binary : ∀ op left right p, P left → P right → P (.binary op left right p)
  logical : ∀ op left right p, P left → P right → P (.logical op left right p)
  function : ∀ body p, Q body → P (.function body p)
  call : ∀ callee arguments p, P callee → (∀ e ∈ arguments, P e) →
    P (.call callee arguments p)
  index : ∀ callee arguments p, P callee → (∀ e ∈ arguments, P e) →
    P (.index callee arguments p)
  member : ∀ parent child p, P parent → P child → P (.member parent child p)
  empty : ∀ p, Q (.empty p)
  declare : ∀ name value p, P value → Q (.declare name value p)
  block : ∀ body p, (∀ t ∈ body, Q t) → Q (.block body p)
  returnNull : ∀ p, Q (.returnNull p)
  returnValue : ∀ value p, P value → Q (.returnValue value p)
  ifThen : ∀ condition body p, P condition → Q body → Q (.ifThen condition body p)
  ifElse : ∀ condition body other p, P condition → Q body → Q other →
    Q (.ifElse condition body other p)
  whileDo : ∀ condition body p, P condition → Q body → Q (.whileDo condition body p)
  discard : ∀ callee arguments q p, P callee → (∀ e ∈ arguments, P e) →
    Q (.expression (.call callee arguments q) p)
  value : ∀ value p, (∀ callee arguments q, value ≠ .call callee arguments q) → P value →
    Q (.expression value p)
  assign : ∀ text q value p, P value → Q (.assign (.name text q) value p)
  assignOther : ∀ target value p, (∀ text q, target ≠ .name text q) → P target → P value →
    Q (.assign target value p)

namespace Tree.Cases

variable {P : Expr → Prop} {Q : Stmt → Prop}

mutual

theorem expr (h : Tree.Cases P Q) : ∀ e, P e
  | .literal value p => h.literal value p
  | .name text p => h.name text p
  | .group inner p => h.group inner p (h.expr inner)
  | .unary op operand p => h.unary op operand p (h.expr operand)
  | .binary op left right p => h.binary op left right p (h.expr left) (h.expr right)
  | .logical op left right p => h.logical op left right p (h.expr left) (h.expr right)
  | .function body p => h.function body p (h.stmt body)
  | .call callee arguments p => h.call callee arguments p (h.expr callee) (h.exprs arguments)
  | .index callee arguments p => h.index callee arguments p (h.expr callee) (h.exprs arguments)
  | .member parent child p => h.member parent child p (h.expr parent) (h.expr child)

theorem exprs (h : Tree.Cases P Q) : ∀ es : List Expr, ∀ e ∈ es, P e
  | [] => by simp
  | e :: es => List.forall_mem_cons.2 ⟨h.expr e, h.exprs es⟩

theorem stmt (h : Tree.Cases P Q) : ∀ t, Q t
  | .empty p => h.empty p
  | .declare name value p => h.declare name value p (h.expr value)
  | .block body p => h.block body p (h.stmts body)
  | .returnNull p => h.returnNull p
  | .returnValue value p => h.returnValue value p (h.expr value)
  | .ifThen condition body p => h.ifThen condition body p (h.expr condition) (h.stmt body)
  | .ifElse condition body other p =>
    h.ifElse condition body other p (h.expr condition) (h.stmt body) (h.stmt other)
  | .whileDo condition body p => h.whileDo condition body p (h.expr condition) (h.stmt body)
  | .expression (.call callee arguments q) p =>
    h.discard callee arguments q p (h.expr callee) (h.exprs arguments)
  | .expression (.literal value q) p => h.value _ p (by simp) (h.literal value q)
  | .expression (.name text q) p => h.value _ p (by simp) (h.name text q)
  | .expression (.group inner q) p => h.value _ p (by simp) (h.expr (.group inner q))
  | .expression (.unary op operand q) p => h.value _ p (by simp) (h.expr (.unary op operand q))
  | .expression (.binary op left right q) p =>
    h.value _ p (by simp) (h.expr (.binary op left right q))
  | .expression (.logical op left right q) p =>
    h.value _ p (by simp) (h.expr (.logical op left right q))
  | .expression (.function body q) p => h.value _ p (by simp) (h.expr (.function body q))
  | .expression (.index callee arguments q) p =>
    h.value _ p (by simp) (h.expr (.index callee arguments q))
  | .expression (.member parent child q) p =>
    h.value _ p (by simp) (h.expr (.member parent child q))
  | .assign target value p => by
    have htarget := h.expr target
    have hvalue := h.expr value
    cases target with
    | name text q => exact h.assign text q value p hvalue
    | _ => exact h.assignOther _ value p (by simp) htarget hvalue

theorem stmts (h : Tree.Cases P Q) : ∀ ts : List Stmt, ∀ t ∈ ts, Q t
  | [] => by simp
  | t :: ts => List.forall_mem_cons.2 ⟨h.stmt t, h.stmts ts⟩

end

end Tree.Cases

end StackScript
