import StackScript.Proofs.Grammar.Growth
import StackScript.Proofs.Grammar.Soundness
import StackScript.Proofs.Tree.Numbering

/-!
What stands in the tables while they are filled. What has been added stays where it is, with its
height beside it, and a node is only added over nodes that stand there; so the heights beside
the tables are always the heights of the nodes. Of a tree that has been made it is known in which
place it stands and, if nothing has been told so far, that numbering it ends in these tables. A
rule that fails leaves nodes behind that belong to no tree, which is why nothing may have been
told.
-/

namespace StackScript

theorem numberExprs_append (ids : Array ExprId) (t : NodeTable) (es : List Expr) (e : Expr) :
    numberExprs ids t (es ++ [e]) =
      ((numberExprs ids t es).1.push (e.number (numberExprs ids t es).2).1,
        (e.number (numberExprs ids t es).2).2) := by
  induction es generalizing ids t with
  | nil => rfl
  | cons first es ih => exact ih (ids.push (first.number t).1) (first.number t).2

theorem numberStmts_append (ids : Array StmtId) (t : NodeTable) (ss : List Stmt) (s : Stmt) :
    numberStmts ids t (ss ++ [s]) =
      ((numberStmts ids t ss).1.push (s.number (numberStmts ids t ss).2).1,
        (s.number (numberStmts ids t ss).2).2) := by
  induction ss generalizing ids t with
  | nil => rfl
  | cons first ss ih => exact ih (ids.push (first.number t).1) (first.number t).2

namespace Grammar

variable {α β γ δ : Type}

/-- Where nothing has been told, nothing had been told before. -/
theorem State.Before.untold {s s' : State} (h : s.Before s') (huntold : s'.told = false) :
    s.told = false := by
  rw [← Bool.not_eq_true] at huntold ⊢
  exact fun htold => huntold (h.told_iff.2 (.inl htold))

namespace Growth

variable {g g' g'' : Growth}

/-- As long as there are numbers for all nodes, none refers to a place where nothing stands, and
the heights beside the tables are those that are to be recorded. -/
structure Recorded (g : Growth) : Prop where
  child_mem : g.table.Fits → ∀ n, g.table.children n ⊆ g.table.nodes
  records : g.table.Fits → g.table.Records g.heightOf

theorem recorded_empty : Recorded {} where
  child_mem _ n _ hc := NodeTable.isOrdered_empty.child_mem n _ hc
  records _ n hn := absurd hn (by cases n <;> simp [NodeTable.nodes])

/-- What has been added stays where it is, and what is recorded goes on to be right. -/
structure Before (g g' : Growth) : Prop where
  exprs : g.table.exprs.toList <+: g'.table.exprs.toList
  exprHeights : g.exprHeights.toList <+: g'.exprHeights.toList
  stmtHeights : g.stmtHeights.toList <+: g'.stmtHeights.toList
  recorded : g.Recorded → g'.Recorded

namespace Before

theorem refl (g : Growth) : g.Before g :=
  ⟨List.prefix_rfl, List.prefix_rfl, List.prefix_rfl, id⟩

theorem trans (h : g.Before g') (h' : g'.Before g'') : g.Before g'' :=
  ⟨h.exprs.trans h'.exprs, h.exprHeights.trans h'.exprHeights, h.stmtHeights.trans h'.stmtHeights,
    fun hg => h'.recorded (h.recorded hg)⟩

end Before

/-- These nodes stand in the tables, and as long as there are numbers for all nodes, these numbers
are theirs. -/
structure Named (g : Growth) (nodes numbers : List Node) : Prop where
  mem : nodes ⊆ g.table.nodes
  eq : g.table.Fits → numbers = nodes

namespace Named

theorem nil : g.Named [] [] := ⟨List.nil_subset _, fun _ => rfl⟩

theorem cons {n number : Node} {nodes numbers : List Node} (hn : n ∈ g.table.nodes)
    (hnumber : g.table.Fits → number = n) (h : g.Named nodes numbers) :
    g.Named (n :: nodes) (number :: numbers) where
  mem := List.cons_subset.2 ⟨hn, h.mem⟩
  eq hfits := by rw [hnumber hfits, h.eq hfits]

end Named

theorem highest_cons (g : Growth) (n : Node) (nodes : List Node) :
    g.highest (n :: nodes) = max (g.heightOf n) (g.highest nodes) := by
  unfold highest
  rw [List.foldl_cons, foldl_max_eq, Nat.zero_max]

theorem highest_one (g : Growth) (n : Node) : g.highest [n] = g.heightOf n := Nat.zero_max _

theorem highest_two (g : Growth) (n m : Node) :
    g.highest [n, m] = max (g.heightOf n) (g.heightOf m) := by
  rw [highest_cons, highest_one]

theorem highest_three (g : Growth) (n m k : Node) :
    g.highest [n, m, k] = max (max (g.heightOf n) (g.heightOf m)) (g.heightOf k) := by
  rw [highest_cons, highest_two, Nat.max_assoc]

theorem highest_eq_foldr (g : Growth) (nodes : List Node) :
    g.highest nodes = (nodes.map g.heightOf).foldr max 0 := by
  induction nodes with
  | nil => rfl
  | cons n nodes ih => rw [highest_cons, ih, List.map_cons, List.foldr_cons]

/-- One more node with its height keeps the records right. -/
theorem Recorded.add {n : Node} {shape children : List Node} (h : g.Recorded)
    (hnamed : g.Named children shape) (hn : g'.table.children n = shape)
    (hsame : ∀ m ∈ g.table.nodes, g'.table.children m = g.table.children m)
    (hnodes : (g.table.nodes ++ [n]).Perm g'.table.nodes)
    (hfits : g'.table.Fits → g.table.Fits)
    (hheights : ∀ m ∈ g.table.nodes, g'.heightOf m = g.heightOf m)
    (hheight : g'.heightOf n = g.highest children + 1) : g'.Recorded := by
  have hcases {m : Node} (hm : m ∈ g'.table.nodes) : m ∈ g.table.nodes ∨ m = n :=
    (List.mem_append.1 (hnodes.mem_iff.2 hm)).imp id List.mem_singleton.1
  -- Nothing refers to the new node.
  have hbelow (hf : g'.table.Fits) {m : Node} (hm : m ∈ g'.table.nodes) :
      g'.table.children m ⊆ g.table.nodes := by
    rcases hcases hm with hm | rfl
    · rw [hsame m hm]
      exact h.child_mem (hfits hf) m
    · rw [hn, hnamed.eq (hfits hf)]
      exact hnamed.mem
  constructor
  case child_mem =>
    intro hf m c hc
    exact hnodes.mem_iff.1 (List.mem_append_left _ (hbelow hf (NodeTable.parent_mem hc) hc))
  case records =>
    intro hf m hm
    have hmap : (g'.table.children m).map g'.heightOf = (g'.table.children m).map g.heightOf :=
      List.map_congr_left fun c hc => hheights c (hbelow hf hm hc)
    rw [hmap]
    rcases hcases hm with hm | rfl
    · rw [hheights m hm, hsame m hm]
      exact h.records (hfits hf) m hm
    · rw [hheight, hn, hnamed.eq (hfits hf), highest_eq_foldr]

theorem prefix_push (xs : Array α) (x : α) : xs.toList <+: (xs.push x).toList := by
  rw [Array.toList_push]
  exact List.prefix_append _ _

theorem getD_push {xs : Array Nat} {slot : Nat} (h : slot < xs.size) (y : Nat) :
    (xs.push y).getD slot 0 = xs.getD slot 0 := by
  rw [Array.getD_eq_getD_getElem?, Array.getD_eq_getD_getElem?, Array.getElem?_push_lt h,
    ← Array.getElem?_eq_getElem]

theorem before_addExpr {shape : ExprShape} {children : List Node}
    (hnamed : g.Named children shape.children) (position : Position) :
    g.Before (g.addExpr shape position (g.highest children + 1)) where
  exprs := prefix_push _ _
  exprHeights := prefix_push _ _
  stmtHeights := List.prefix_rfl
  recorded h := by
    refine h.add hnamed (g.table.children_expr_size position shape)
      (fun _ => g.table.children_addExpr position shape) (g.table.nodes_addExpr position shape)
      (fun hfits => ⟨?_, hfits.stmts⟩) (fun m hm => ?_) ?_
    · exact Nat.le_trans (by simp [Growth.addExpr, NodeTable.addExpr]) hfits.exprs
    · cases m with
      | expr slot => exact getD_push (g.exprs_size ▸ NodeTable.mem_nodes_expr.1 hm) _
      | stmt slot => rfl
    · change (g.exprHeights.push _).getD g.table.exprs.size 0 = _
      rw [← g.exprs_size, Array.getD_eq_getD_getElem?, Array.getElem?_push_size, Option.getD_some]

theorem before_addStmt {shape : StmtShape} {children : List Node}
    (hnamed : g.Named children shape.children) (position : Position) :
    g.Before (g.addStmt shape position (g.highest children + 1)) where
  exprs := List.prefix_rfl
  exprHeights := List.prefix_rfl
  stmtHeights := prefix_push _ _
  recorded h := by
    refine h.add hnamed (g.table.children_stmt_size position shape)
      (fun _ => g.table.children_addStmt position shape) (g.table.nodes_addStmt position shape)
      (fun hfits => ⟨hfits.exprs, ?_⟩) (fun m hm => ?_) ?_
    · exact Nat.le_trans (by simp [Growth.addStmt, NodeTable.addStmt]) hfits.stmts
    · cases m with
      | expr slot => rfl
      | stmt slot => exact getD_push (g.stmts_size ▸ NodeTable.mem_nodes_stmt.1 hm) _
    · change (g.stmtHeights.push _).getD g.table.stmts.size 0 = _
      rw [← g.stmts_size, Array.getD_eq_getD_getElem?, Array.getElem?_push_size, Option.getD_some]

/-- The expression of this height and place stands here. -/
structure HasExpr (g : Growth) (e : Tall Expr) (slot : Nat) : Prop where
  height : g.exprHeights[slot]? = some e.height
  node : ∃ shape, g.table.exprs[slot]? = some ⟨shape, e.tree.position⟩

/-- The statement of this height stands here. -/
def HasStmt (g : Growth) (s : Tall Stmt) (slot : Nat) : Prop :=
  g.stmtHeights[slot]? = some s.height

theorem getElem?_of_prefix {xs ys : Array α} {slot : Nat} {x : α} (h : xs.toList <+: ys.toList)
    (hx : xs[slot]? = some x) : ys[slot]? = some x := by
  obtain ⟨hlt, rfl⟩ := Array.getElem?_eq_some_iff.1 hx
  rw [← Array.getElem?_toList]
  exact List.prefix_iff_getElem?.1 h slot hlt

theorem HasExpr.later {e : Tall Expr} {slot : Nat} (h : g.HasExpr e slot) (hg : g.Before g') :
    g'.HasExpr e slot where
  height := getElem?_of_prefix hg.exprHeights h.height
  node := h.node.imp fun _ => getElem?_of_prefix hg.exprs

theorem HasStmt.later {s : Tall Stmt} {slot : Nat} (h : g.HasStmt s slot) (hg : g.Before g') :
    g'.HasStmt s slot := getElem?_of_prefix hg.stmtHeights h

theorem HasExpr.heightOf {e : Tall Expr} {slot : Nat} (h : g.HasExpr e slot) :
    g.heightOf (.expr slot) = e.height := by
  rw [Growth.heightOf, Array.getD_eq_getD_getElem?, h.height, Option.getD_some]

theorem HasStmt.heightOf {s : Tall Stmt} {slot : Nat} (h : g.HasStmt s slot) :
    g.heightOf (.stmt slot) = s.height := by
  rw [Growth.heightOf, Array.getD_eq_getD_getElem?, h, Option.getD_some]

theorem HasExpr.position {e : Tall Expr} {slot : Nat} (h : g.HasExpr e slot) :
    g.position slot = e.tree.position := by
  obtain ⟨shape, hnode⟩ := h.node
  rw [Growth.position, Array.getD_eq_getD_getElem?, hnode, Option.getD_some]

theorem HasExpr.mem {e : Tall Expr} {slot : Nat} (h : g.HasExpr e slot) :
    .expr slot ∈ g.table.nodes := by
  obtain ⟨hlt, -⟩ := Array.getElem?_eq_some_iff.1 h.height
  exact NodeTable.mem_nodes_expr.2 (g.exprs_size ▸ hlt)

theorem HasStmt.mem {s : Tall Stmt} {slot : Nat} (h : g.HasStmt s slot) :
    .stmt slot ∈ g.table.nodes := by
  obtain ⟨hlt, -⟩ := Array.getElem?_eq_some_iff.1 h
  exact NodeTable.mem_nodes_stmt.2 (g.stmts_size ▸ hlt)

namespace Named

variable {nodes numbers : List Node} {slot : Nat}

theorem expr {e : Tall Expr} (he : g.HasExpr e slot) (h : g.Named nodes numbers) :
    g.Named (.expr slot :: nodes) ((ExprId.ofSlot slot).node :: numbers) := by
  refine .cons he.mem (fun hfits => ?_) h
  have hlt := Nat.lt_of_lt_of_le (NodeTable.mem_nodes_expr.1 he.mem) hfits.exprs
  exact congrArg Node.expr (UInt32.toNat_ofNat_of_lt' hlt)

theorem stmt {s : Tall Stmt} (hs : g.HasStmt s slot) (h : g.Named nodes numbers) :
    g.Named (.stmt slot :: nodes) ((StmtId.ofSlot slot).node :: numbers) := by
  refine .cons hs.mem (fun hfits => ?_) h
  have hlt := Nat.lt_of_lt_of_le (NodeTable.mem_nodes_stmt.1 hs.mem) hfits.stmts
  exact congrArg Node.stmt (UInt32.toNat_ofNat_of_lt' hlt)

theorem exprs {all : List (Tall Expr)} {slots : List Nat} (h : List.Forall₂ g.HasExpr all slots) :
    g.Named (slots.map .expr) ((slots.map .ofSlot).map ExprId.node) := by
  induction h with
  | nil => exact .nil
  | cons hfirst _ ih => exact .expr hfirst ih

theorem stmts {all : List (Tall Stmt)} {slots : List Nat} (h : List.Forall₂ g.HasStmt all slots) :
    g.Named (slots.map .stmt) ((slots.map .ofSlot).map StmtId.node) := by
  induction h with
  | nil => exact .nil
  | cons hfirst _ ih => exact .stmt hfirst ih

end Named

theorem highest_map {node : Nat → Node} {all : List (Tall α)} {slots : List Nat}
    (h : List.Forall₂ (fun t slot => g.heightOf (node slot) = t.height) all slots) :
    g.highest (slots.map node) = all.foldl (fun h t => max h t.height) 0 := by
  induction h with
  | nil => rfl
  | cons hfirst _ ih =>
    rw [List.map_cons, highest_cons, ih, hfirst, List.foldl_cons, foldl_max_eq _ (max _ _),
      Nat.zero_max]

end Growth

/-- From the first tables the second ones have come about, in this state, and the tree stands in
this place. -/
structure MadeExpr (g : Growth) (e : Tall Expr) (slot : Nat) (g' : Growth) (s : State) : Prop where
  has : g'.HasExpr e slot
  number : s.told = false → e.tree.number g.table = (.ofSlot slot, g'.table)

structure MadeStmt (g : Growth) (t : Tall Stmt) (slot : Nat) (g' : Growth) (s : State) : Prop where
  has : g'.HasStmt t slot
  number : s.told = false → t.tree.number g.table = (.ofSlot slot, g'.table)

/-- The same of each of several expressions, one behind the other. -/
structure MadeExprs (g : Growth) (all : Array (Tall Expr)) (slots : Array Nat) (g' : Growth)
    (s : State) : Prop where
  has : List.Forall₂ g'.HasExpr all.toList slots.toList
  number : s.told = false →
    numberExprs #[] g.table (all.map Tall.tree).toList = (slots.map .ofSlot, g'.table)

structure MadeStmts (g : Growth) (all : Array (Tall Stmt)) (slots : Array Nat) (g' : Growth)
    (s : State) : Prop where
  has : List.Forall₂ g'.HasStmt all.toList slots.toList
  number : s.told = false →
    numberStmts #[] g.table (all.map Tall.tree).toList = (slots.map .ofSlot, g'.table)

/-- Arguments have been made, and the highest of them is so high. -/
structure MadeArguments (g : Growth) (all : Tall (List Expr)) (slots : List Nat) (g' : Growth)
    (s : State) : Prop where
  named : g'.Named (slots.map .expr) ((slots.map .ofSlot).map ExprId.node)
  highest : g'.highest (slots.map .expr) = all.height
  number : s.told = false →
    numberExprs #[] g.table all.tree = ((slots.map .ofSlot).toArray, g'.table)

section Made

variable {g g' g'' : Growth} {s s' : State} {slot : Nat} {slots : Array Nat}

theorem MadeExpr.later {e : Tall Expr} (h : MadeExpr g e slot g' s) (hs : s.Before s') :
    MadeExpr g e slot g' s' := ⟨h.has, fun huntold => h.number (hs.untold huntold)⟩

theorem MadeExprs.empty (g : Growth) (s : State) : MadeExprs g #[] #[] g s :=
  ⟨.nil, fun _ => by simp [numberExprs]⟩

theorem MadeStmts.empty (g : Growth) (s : State) : MadeStmts g #[] #[] g s :=
  ⟨.nil, fun _ => by simp [numberStmts]⟩

theorem MadeExprs.later {all : Array (Tall Expr)} (h : MadeExprs g all slots g' s)
    (hs : s.Before s') : MadeExprs g all slots g' s' :=
  ⟨h.has, fun huntold => h.number (hs.untold huntold)⟩

theorem MadeStmts.later {all : Array (Tall Stmt)} (h : MadeStmts g all slots g' s)
    (hs : s.Before s') : MadeStmts g all slots g' s' :=
  ⟨h.has, fun huntold => h.number (hs.untold huntold)⟩

theorem forall₂_push {R : α → β → Prop} {xs : Array α} {ys : Array β} {x : α} {y : β}
    (h : List.Forall₂ R xs.toList ys.toList) (hlast : R x y) :
    List.Forall₂ R (xs.push x).toList (ys.push y).toList := by
  rw [Array.toList_push, Array.toList_push]
  exact List.rel_append h (.cons hlast .nil)

theorem MadeExprs.push {all : Array (Tall Expr)} {e : Tall Expr} (h : MadeExprs g all slots g' s)
    (hg : g'.Before g'') (hs : s.Before s') (he : MadeExpr g' e slot g'' s') :
    MadeExprs g (all.push e) (slots.push slot) g'' s' where
  has := forall₂_push (h.has.imp fun _ _ hslot => hslot.later hg) he.has
  number huntold := by
    rw [Array.map_push, Array.toList_push, numberExprs_append, h.number (hs.untold huntold)]
    dsimp only
    rw [he.number huntold, Array.map_push]

theorem MadeStmts.push {all : Array (Tall Stmt)} {t : Tall Stmt} (h : MadeStmts g all slots g' s)
    (hg : g'.Before g'') (hs : s.Before s') (ht : MadeStmt g' t slot g'' s') :
    MadeStmts g (all.push t) (slots.push slot) g'' s' where
  has := forall₂_push (h.has.imp fun _ _ hslot => hslot.later hg) ht.has
  number huntold := by
    rw [Array.map_push, Array.toList_push, numberStmts_append, h.number (hs.untold huntold)]
    dsimp only
    rw [ht.number huntold, Array.map_push]

theorem MadeExprs.highest {all : Array (Tall Expr)} (h : MadeExprs g all slots g' s) :
    g'.highest (slots.toList.map .expr) = all.foldl (fun h e => max h e.height) 0 := by
  rw [← Array.foldl_toList]
  exact Growth.highest_map (h.has.imp fun _ _ hslot => hslot.heightOf)

theorem MadeStmts.highest {all : Array (Tall Stmt)} (h : MadeStmts g all slots g' s) :
    g'.highest (slots.toList.map .stmt) = all.foldl (fun h t => max h t.height) 0 := by
  rw [← Array.foldl_toList]
  exact Growth.highest_map (h.has.imp fun _ _ hslot => hslot.heightOf)

theorem MadeExprs.arguments {all : Array (Tall Expr)} (h : MadeExprs g all slots g' s) :
    MadeArguments g ⟨(all.map Tall.tree).toList, all.foldl (fun h e => max h e.height) 0⟩
      slots.toList g' s where
  named := .exprs h.has
  highest := h.highest
  number huntold := by
    rw [h.number huntold, ← Array.toList_map, Array.toArray_toList]

/-- A statement that is wrong may have left nodes behind. -/
theorem MadeStmts.skip {all : Array (Tall Stmt)} (h : MadeStmts g all slots g' s)
    (hg : g'.Before g'') (htold : s'.told = true) : MadeStmts g all slots g'' s' where
  has := h.has.imp fun _ _ hslot => hslot.later hg
  number huntold := Bool.noConfusion (htold.symm.trans huntold)

end Made

end Grammar

end StackScript
