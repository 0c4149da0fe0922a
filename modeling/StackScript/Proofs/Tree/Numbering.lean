import StackScript.Proofs.Tree.Forest

/-!
Numbered trees stand in their tables as they are. Each way of numbering adds nodes behind those
of a table, which stay as they are, and the nodes added are a forest whose roots are the
numbers handed on. So a tree that is numbered alone fills its table, and its height is that of
the node at its root. Numbers are words, so all this is claimed of tables with no more nodes
than words can tell apart.
-/

namespace StackScript

namespace NodeTable

variable {t t' t'' : NodeTable} {roots roots' : List Node} {height height' : Nat}

/-- There is a number for every node. -/
structure Fits (t : NodeTable) : Prop where
  exprs : t.exprs.size ≤ UInt32.size
  stmts : t.stmts.size ≤ UInt32.size

/-- The nodes of one table are those of another one and the trees below some roots. -/
structure Plants (t t' : NodeTable) (roots : List Node) (height : Nat) : Prop where
  exprs_le : t.exprs.size ≤ t'.exprs.size
  stmts_le : t.stmts.size ≤ t'.stmts.size
  same : ∀ n ∈ t.nodes, t'.children n = t.children n
  roots_mem : roots ⊆ t'.nodes
  ordered : t.IsOrdered → t'.IsOrdered
  forest : t'.Fits → ∃ nodes, t'.Forest roots nodes height ∧ (t.nodes ++ nodes).Perm t'.nodes

namespace Plants

theorem nothing (t : NodeTable) : t.Plants t [] 0 where
  exprs_le := Nat.le_refl _
  stmts_le := Nat.le_refl _
  same _ _ := rfl
  roots_mem := List.nil_subset _
  ordered h := h
  forest _ := ⟨[], .nil, by rw [List.append_nil]⟩

theorem mem_nodes (h : t.Plants t' roots height) {n : Node} (hn : n ∈ t.nodes) :
    n ∈ t'.nodes := by
  cases n with
  | expr slot => exact mem_nodes_expr.2 (Nat.lt_of_lt_of_le (mem_nodes_expr.1 hn) h.exprs_le)
  | stmt slot => exact mem_nodes_stmt.2 (Nat.lt_of_lt_of_le (mem_nodes_stmt.1 hn) h.stmts_le)

theorem fits (h : t.Plants t' roots height) (hfits : t'.Fits) : t.Fits where
  exprs := Nat.le_trans h.exprs_le hfits.exprs
  stmts := Nat.le_trans h.stmts_le hfits.stmts

theorem append (h : t.Plants t' roots height) (h' : t'.Plants t'' roots' height') :
    t.Plants t'' (roots ++ roots') (max height height') where
  exprs_le := Nat.le_trans h.exprs_le h'.exprs_le
  stmts_le := Nat.le_trans h.stmts_le h'.stmts_le
  same n hn := (h'.same n (h.mem_nodes hn)).trans (h.same n hn)
  roots_mem := List.append_subset.2 ⟨fun _ hn => h'.mem_nodes (h.roots_mem hn), h'.roots_mem⟩
  ordered hordered := h'.ordered (h.ordered hordered)
  forest hfits := by
    obtain ⟨nodes, hforest, hperm⟩ := h.forest (h'.fits hfits)
    obtain ⟨nodes', hforest', hperm'⟩ := h'.forest hfits
    have hold : ∀ n ∈ nodes, n ∈ t'.nodes := fun n hn =>
      hperm.mem_iff.1 (List.mem_append_right _ hn)
    refine ⟨nodes ++ nodes', (hforest.grow fun n hn => h'.same n (hold n hn)).append hforest', ?_⟩
    rw [← List.append_assoc]
    exact (hperm.append_right nodes').trans hperm'

/-- A node is put on top of the trees below its children. -/
theorem node (h : t.Plants t' roots height) {n root : Node} (hchildren : t''.children n = roots)
    (hexprs : t'.exprs.size ≤ t''.exprs.size) (hstmts : t'.stmts.size ≤ t''.stmts.size)
    (hsame : ∀ m ∈ t'.nodes, t''.children m = t'.children m)
    (hnodes : (t'.nodes ++ [n]).Perm t''.nodes) (hroot : root ∈ t''.nodes)
    (hnumber : t''.Fits → root = n) : t.Plants t'' [root] (height + 1) where
  exprs_le := Nat.le_trans h.exprs_le hexprs
  stmts_le := Nat.le_trans h.stmts_le hstmts
  same m hm := (hsame m (h.mem_nodes hm)).trans (h.same m hm)
  roots_mem := List.cons_subset.2 ⟨hroot, List.nil_subset _⟩
  ordered hordered := by
    refine (h.ordered hordered).add ?_ hsame hnodes
    rw [hchildren]
    exact h.roots_mem
  forest hfits := by
    have hfits' : t'.Fits :=
      ⟨Nat.le_trans hexprs hfits.exprs, Nat.le_trans hstmts hfits.stmts⟩
    obtain ⟨nodes, hforest, hperm⟩ := h.forest hfits'
    have hold : ∀ n ∈ nodes, n ∈ t'.nodes := fun n hn =>
      hperm.mem_iff.1 (List.mem_append_right _ hn)
    have hbelow := hforest.grow fun m hm => hsame m (hold m hm)
    rw [← hchildren] at hbelow
    rw [hnumber hfits]
    refine ⟨n :: nodes, hbelow.single, ?_⟩
    exact (List.perm_middle.trans (List.perm_append_singleton n _).symm).trans
      ((hperm.append_right [n]).trans hnodes)

end Plants

section Add

variable (t) (p : Position)

theorem nodes_addExpr (shape : ExprShape) :
    (t.nodes ++ [Node.expr t.exprs.size]).Perm (t.addExpr shape p).2.nodes := by
  unfold nodes addExpr
  rw [Array.size_push, List.range_succ, List.map_append, List.append_assoc, List.append_assoc]
  exact List.perm_append_comm.append_left _

theorem nodes_addStmt (shape : StmtShape) :
    (t.nodes ++ [Node.stmt t.stmts.size]).Perm (t.addStmt shape p).2.nodes := by
  unfold nodes addStmt
  rw [Array.size_push, List.range_succ, List.map_append, List.append_assoc]
  exact .refl _

theorem children_addExpr (shape : ExprShape) {n : Node} (hn : n ∈ t.nodes) :
    (t.addExpr shape p).2.children n = t.children n := by
  cases n with
  | expr slot =>
    unfold children addExpr
    dsimp only
    rw [Array.getElem?_push_lt (mem_nodes_expr.1 hn), Array.getElem?_eq_getElem]
  | stmt slot => rfl

theorem children_addStmt (shape : StmtShape) {n : Node} (hn : n ∈ t.nodes) :
    (t.addStmt shape p).2.children n = t.children n := by
  cases n with
  | expr slot => rfl
  | stmt slot =>
    unfold children addStmt
    dsimp only
    rw [Array.getElem?_push_lt (mem_nodes_stmt.1 hn), Array.getElem?_eq_getElem]

theorem children_expr_size (shape : ExprShape) :
    (t.addExpr shape p).2.children (.expr t.exprs.size) = shape.children := by
  unfold children addExpr
  dsimp only
  rw [Array.getElem?_push_size, Option.elim_some]

theorem children_stmt_size (shape : StmtShape) :
    (t.addStmt shape p).2.children (.stmt t.stmts.size) = shape.children := by
  unfold children addStmt
  dsimp only
  rw [Array.getElem?_push_size, Option.elim_some]

end Add

namespace Plants

theorem addExpr {shape : ExprShape} (h : t.Plants t' shape.children height) (p : Position) :
    t.Plants (t'.addExpr shape p).2 [(t'.addExpr shape p).1.node] (height + 1) := by
  have hsize : (t'.addExpr shape p).2.exprs.size = t'.exprs.size + 1 := Array.size_push _
  have hnumber : (UInt32.ofNat t'.exprs.size).toNat = t'.exprs.size % UInt32.size :=
    UInt32.toNat_ofNat'
  refine h.node (t'.children_expr_size p shape) (by omega) (Nat.le_refl _)
    (fun _ => t'.children_addExpr p shape) (t'.nodes_addExpr p shape) ?_ fun hfits => ?_
  · have hle := Nat.mod_le t'.exprs.size UInt32.size
    refine mem_nodes_expr.2 ?_
    rw [hsize]
    change (UInt32.ofNat t'.exprs.size).toNat < _
    omega
  · have hle := hfits.exprs
    change Node.expr (UInt32.ofNat t'.exprs.size).toNat = _
    rw [hnumber, Nat.mod_eq_of_lt (by omega)]

theorem addStmt {shape : StmtShape} (h : t.Plants t' shape.children height) (p : Position) :
    t.Plants (t'.addStmt shape p).2 [(t'.addStmt shape p).1.node] (height + 1) := by
  have hsize : (t'.addStmt shape p).2.stmts.size = t'.stmts.size + 1 := Array.size_push _
  have hnumber : (UInt32.ofNat t'.stmts.size).toNat = t'.stmts.size % UInt32.size :=
    UInt32.toNat_ofNat'
  refine h.node (t'.children_stmt_size p shape) (Nat.le_refl _) (by omega)
    (fun _ => t'.children_addStmt p shape) (t'.nodes_addStmt p shape) ?_ fun hfits => ?_
  · have hle := Nat.mod_le t'.stmts.size UInt32.size
    refine mem_nodes_stmt.2 ?_
    rw [hsize]
    change (UInt32.ofNat t'.stmts.size).toNat < _
    omega
  · have hle := hfits.stmts
    change Node.stmt (UInt32.ofNat t'.stmts.size).toNat = _
    rw [hnumber, Nat.mod_eq_of_lt (by omega)]

theorem hasHeight {root : Node} (h : t.Plants t' [root] height) (hfits : t'.Fits) :
    t'.HasHeight root height := by
  obtain ⟨nodes, hforest, -⟩ := h.forest hfits
  cases hforest with
  | cons hbelow hrest =>
    cases hrest
    rw [Nat.max_zero]
    exact hbelow.hasHeight

end Plants

section Alone

variable {root : Node} (h : Plants {} t [root] height)

include h

theorem Plants.isOrdered : t.IsOrdered := h.ordered isOrdered_empty

theorem Plants.isTree (hfits : t.Fits) : t.IsTree root := by
  obtain ⟨nodes, hforest, hnodes⟩ := h.forest hfits
  exact hforest.isTree hnodes

theorem Plants.recordsHeights (hfits : t.Fits) {limit : Node → Nat} (hroot : height ≤ limit root)
    (hother : ∀ n, n ≠ root → height ≤ limit n + 1) : t.RecordsHeights limit := by
  obtain ⟨nodes, hforest, hnodes⟩ := h.forest hfits
  have hnodes : nodes.Perm t.nodes := hnodes
  constructor
  case exists_records =>
    refine h.isOrdered.exists_records fun n hn => ?_
    obtain ⟨k, -, hk⟩ := hforest.exists_hasHeight n (hnodes.mem_iff.2 hn)
    exact ⟨k, hk⟩
  case hasHeight =>
    intro depth hdepth
    exact h.isOrdered.hasHeight hdepth
  case height_le =>
    intro n hn k hk
    by_cases hne : n = root
    · subst hne
      rw [hk.unique (h.hasHeight hfits)]
      exact hroot
    · have hlt := hforest.height_lt (hnodes.mem_iff.2 hn) hne hk
      have hle := hother n hne
      omega

end Alone

end NodeTable

open NodeTable

section Numbers

mutual

theorem Expr.plants (t : NodeTable) :
    ∀ e : Expr, t.Plants (e.number t).2 [(e.number t).1.node] e.height
  | .binary _ left right p => ((left.plants t).append (right.plants _)).addExpr p
  | .logical _ left right p => ((left.plants t).append (right.plants _)).addExpr p
  | .unary _ operand p => (operand.plants t).addExpr p
  | .group inner p => (inner.plants t).addExpr p
  | .literal _ p => (Plants.nothing t).addExpr p
  | .name _ p => (Plants.nothing t).addExpr p
  | .function body p => (body.plants t).addExpr p
  | .call callee arguments p => by
    obtain ⟨ids, hids, harguments⟩ := exprs_plant #[] (callee.number t).2 arguments
    rw [← hids.trans (List.nil_append ids)] at harguments
    exact ((callee.plants t).append harguments).addExpr p
  | .index callee arguments p => by
    obtain ⟨ids, hids, harguments⟩ := exprs_plant #[] (callee.number t).2 arguments
    rw [← hids.trans (List.nil_append ids)] at harguments
    exact ((callee.plants t).append harguments).addExpr p
  | .member parent child p => ((parent.plants t).append (child.plants _)).addExpr p

theorem Stmt.plants (t : NodeTable) :
    ∀ s : Stmt, t.Plants (s.number t).2 [(s.number t).1.node] s.height
  | .empty p => (Plants.nothing t).addStmt p
  | .declare _ value p => (value.plants t).addStmt p
  | .block body p => by
    obtain ⟨ids, hids, hbody⟩ := stmts_plant #[] t body
    rw [← hids.trans (List.nil_append ids)] at hbody
    exact hbody.addStmt p
  | .returnNull p => (Plants.nothing t).addStmt p
  | .returnValue value p => (value.plants t).addStmt p
  | .ifThen condition body p => ((condition.plants t).append (body.plants _)).addStmt p
  | .ifElse condition body other p =>
    (((condition.plants t).append (body.plants _)).append (other.plants _)).addStmt p
  | .whileDo condition body p => ((condition.plants t).append (body.plants _)).addStmt p
  | .expression value p => (value.plants t).addStmt p
  | .assign target value p => ((target.plants t).append (value.plants _)).addStmt p

theorem exprs_plant (ids : Array ExprId) (t : NodeTable) : ∀ es : List Expr,
    ∃ added, (numberExprs ids t es).1.toList = ids.toList ++ added ∧
      t.Plants (numberExprs ids t es).2 (added.map ExprId.node) (exprsHeight es)
  | [] => ⟨[], (List.append_nil _).symm, .nothing t⟩
  | e :: es => by
    obtain ⟨added, hadded, hplants⟩ := exprs_plant (ids.push (e.number t).1) (e.number t).2 es
    refine ⟨(e.number t).1 :: added, ?_, (e.plants t).append hplants⟩
    rw [numberExprs, hadded, Array.toList_push, List.append_assoc, List.singleton_append]

theorem stmts_plant (ids : Array StmtId) (t : NodeTable) : ∀ ss : List Stmt,
    ∃ added, (numberStmts ids t ss).1.toList = ids.toList ++ added ∧
      t.Plants (numberStmts ids t ss).2 (added.map StmtId.node) (stmtsHeight ss)
  | [] => ⟨[], (List.append_nil _).symm, .nothing t⟩
  | s :: ss => by
    obtain ⟨added, hadded, hplants⟩ := stmts_plant (ids.push (s.number t).1) (s.number t).2 ss
    refine ⟨(s.number t).1 :: added, ?_, (s.plants t).append hplants⟩
    rw [numberStmts, hadded, Array.toList_push, List.append_assoc, List.singleton_append]

end

end Numbers

section Counts

mutual

/-- How many nodes a tree has. -/
def Expr.count : Expr → Nat
  | .binary _ left right _ | .logical _ left right _ => left.count + right.count + 1
  | .unary _ operand _ => operand.count + 1
  | .group inner _ => inner.count + 1
  | .literal _ _ => 1
  | .name _ _ => 1
  | .function body _ => body.count + 1
  | .call callee arguments _ | .index callee arguments _ =>
    callee.count + exprsCount arguments + 1
  | .member parent child _ => parent.count + child.count + 1

def Stmt.count : Stmt → Nat
  | .empty _ => 1
  | .declare _ value _ => value.count + 1
  | .block body _ => stmtsCount body + 1
  | .returnNull _ => 1
  | .returnValue value _ => value.count + 1
  | .ifThen condition body _ => condition.count + body.count + 1
  | .ifElse condition body other _ => condition.count + body.count + other.count + 1
  | .whileDo condition body _ => condition.count + body.count + 1
  | .expression value _ => value.count + 1
  | .assign target value _ => target.count + value.count + 1

def exprsCount : List Expr → Nat
  | [] => 0
  | e :: es => e.count + exprsCount es

def stmtsCount : List Stmt → Nat
  | [] => 0
  | s :: ss => s.count + stmtsCount ss

end

theorem exprsCount_append (es es' : List Expr) :
    exprsCount (es ++ es') = exprsCount es + exprsCount es' := by
  induction es with
  | nil => exact (Nat.zero_add _).symm
  | cons e es ih => rw [List.cons_append, exprsCount, exprsCount, ih, Nat.add_assoc]

namespace NodeTable

/-- How many nodes the table has. -/
def size (t : NodeTable) : Nat := t.exprs.size + t.stmts.size

theorem size_addExpr (t : NodeTable) (shape : ExprShape) (p : Position) :
    (t.addExpr shape p).2.size = t.size + 1 := by
  simp only [size, addExpr, Array.size_push]
  omega

theorem size_addStmt (t : NodeTable) (shape : StmtShape) (p : Position) :
    (t.addStmt shape p).2.size = t.size + 1 := by
  simp only [size, addStmt, Array.size_push]
  omega

end NodeTable

mutual

theorem Expr.size_number (t : NodeTable) : ∀ e : Expr, (e.number t).2.size = t.size + e.count
  | .binary _ left right _ | .logical _ left right _ | .member left right _ => by
    have hleft := left.size_number t
    have hright := right.size_number (left.number t).2
    simp only [Expr.number, size_addExpr, Expr.count]
    omega
  | .unary _ inner _ | .group inner _ => by
    have hinner := inner.size_number t
    simp only [Expr.number, size_addExpr, Expr.count]
    omega
  | .literal _ _ | .name _ _ => size_addExpr _ _ _
  | .function body _ => by
    have hbody := body.size_number t
    simp only [Expr.number, size_addExpr, Expr.count]
    omega
  | .call callee arguments _ | .index callee arguments _ => by
    have hcallee := callee.size_number t
    have harguments := size_numberExprs #[] (callee.number t).2 arguments
    simp only [Expr.number, size_addExpr, Expr.count]
    omega

theorem Stmt.size_number (t : NodeTable) : ∀ s : Stmt, (s.number t).2.size = t.size + s.count
  | .empty _ | .returnNull _ => size_addStmt _ _ _
  | .declare _ value _ | .returnValue value _ | .expression value _ => by
    have hvalue := value.size_number t
    simp only [Stmt.number, size_addStmt, Stmt.count]
    omega
  | .block body _ => by
    have hbody := size_numberStmts #[] t body
    simp only [Stmt.number, size_addStmt, Stmt.count]
    omega
  | .ifThen condition body _ | .whileDo condition body _ => by
    have hcondition := condition.size_number t
    have hbody := body.size_number (condition.number t).2
    simp only [Stmt.number, size_addStmt, Stmt.count]
    omega
  | .ifElse condition body other _ => by
    have hcondition := condition.size_number t
    have hbody := body.size_number (condition.number t).2
    have hother := other.size_number (body.number (condition.number t).2).2
    simp only [Stmt.number, size_addStmt, Stmt.count]
    omega
  | .assign target value _ => by
    have htarget := target.size_number t
    have hvalue := value.size_number (target.number t).2
    simp only [Stmt.number, size_addStmt, Stmt.count]
    omega

theorem size_numberExprs (ids : Array ExprId) (t : NodeTable) :
    ∀ es : List Expr, (numberExprs ids t es).2.size = t.size + exprsCount es
  | [] => rfl
  | e :: es => by
    have hfirst := e.size_number t
    have hrest := size_numberExprs (ids.push (e.number t).1) (e.number t).2 es
    simp only [numberExprs, exprsCount]
    omega

theorem size_numberStmts (ids : Array StmtId) (t : NodeTable) :
    ∀ ss : List Stmt, (numberStmts ids t ss).2.size = t.size + stmtsCount ss
  | [] => rfl
  | s :: ss => by
    have hfirst := s.size_number t
    have hrest := size_numberStmts (ids.push (s.number t).1) (s.number t).2 ss
    simp only [numberStmts, stmtsCount]
    omega

end

theorem NodeTable.Fits.of_size {t : NodeTable} (h : t.size ≤ UInt32.size) : t.Fits where
  exprs := Nat.le_trans (Nat.le_add_right _ _) h
  stmts := Nat.le_trans (Nat.le_add_left _ _) h

end Counts

end StackScript
