import StackScript.Tree.Numbered
import Mathlib.Data.List.Chain
import Mathlib.Data.List.MinMax
import Mathlib.Data.List.Nodup
import Mathlib.Logic.Relation
import Mathlib.Order.Nat

/-!
Tables of nodes as graphs. The children of a node are those that it refers to by their numbers,
and nothing keeps a table from referring to a node twice, from running in circles or from
leaving nodes out. A forest is a part of a table that does none of that: all that can be
reached from its roots is listed once for each way to reach it. What makes a table a tree
follows if the list is that of all nodes.
-/

namespace StackScript

/-- A node of a table, by its place among the expressions or among the statements. -/
inductive Node where
  | expr (slot : Nat)
  | stmt (slot : Nat)
  deriving DecidableEq

def ExprId.node (id : ExprId) : Node := .expr id.index.toNat

def StmtId.node (id : StmtId) : Node := .stmt id.index.toNat

/-- All that an expression refers to, in order. -/
def ExprShape.children : ExprShape → List Node
  | binary left _ right | logical left _ right => [left.node, right.node]
  | unary _ operand => [operand.node]
  | group inner => [inner.node]
  | literal _ | name _ => []
  | function body => [body.node]
  | call callee arguments | index callee arguments => callee.node :: arguments.map ExprId.node
  | member parent child => [parent.node, child.node]

/-- All that a statement refers to, in order. -/
def StmtShape.children : StmtShape → List Node
  | empty | returnNull => []
  | declare _ value | returnValue value | expression value => [value.node]
  | block body => body.map StmtId.node
  | branch condition body other =>
    [condition.node, body.node] ++ (other.map StmtId.node).toList
  | whileDo condition body => [condition.node, body.node]
  | assign target value => [target.node, value.node]

namespace NodeTable

variable {t t' : NodeTable}

/-- Every place of a table that a node stands in. -/
def nodes (t : NodeTable) : List Node :=
  (List.range t.exprs.size).map .expr ++ (List.range t.stmts.size).map .stmt

/-- What stands in a place refers to these; where nothing stands there are none. -/
def children (t : NodeTable) : Node → List Node
  | .expr slot => (t.exprs[slot]?).elim [] (·.shape.children)
  | .stmt slot => (t.stmts[slot]?).elim [] (·.shape.children)

theorem mem_nodes_expr {slot : Nat} : Node.expr slot ∈ t.nodes ↔ slot < t.exprs.size := by
  simp [nodes]

theorem mem_nodes_stmt {slot : Nat} : Node.stmt slot ∈ t.nodes ↔ slot < t.stmts.size := by
  simp [nodes]

theorem children_eq_nil {n : Node} (h : n ∉ t.nodes) : t.children n = [] := by
  cases n with
  | expr slot =>
    rw [mem_nodes_expr, Nat.not_lt] at h
    rw [children, Array.getElem?_eq_none h, Option.elim_none]
  | stmt slot =>
    rw [mem_nodes_stmt, Nat.not_lt] at h
    rw [children, Array.getElem?_eq_none h, Option.elim_none]

theorem parent_mem {n c : Node} (hc : c ∈ t.children n) : n ∈ t.nodes := by
  by_contra hn
  rw [children_eq_nil hn] at hc
  exact List.not_mem_nil hc

theorem nodup_nodes (t : NodeTable) : t.nodes.Nodup := by
  refine List.nodup_append.2 ⟨?_, ?_, ?_⟩
  · exact List.Nodup.map (fun _ _ => Node.expr.inj) List.nodup_range
  · exact List.Nodup.map (fun _ _ => Node.stmt.inj) List.nodup_range
  · intro n hn m hm heq
    obtain ⟨i, -, rfl⟩ := List.mem_map.1 hn
    obtain ⟨j, -, rfl⟩ := List.mem_map.1 hm
    cases heq

/-- A way down, from each node to one of its children. -/
def IsWay (t : NodeTable) (way : List Node) : Prop :=
  way.IsChain fun parent child => child ∈ t.children parent

/-- So many nodes lie on the longest way down from here. -/
structure HasHeight (t : NodeTable) (n : Node) (height : Nat) : Prop where
  exists_way : ∃ below, t.IsWay (n :: below) ∧ below.length + 1 = height
  way_le : ∀ below, t.IsWay (n :: below) → below.length + 1 ≤ height

/-- Each node is recorded one higher than the highest of its children. -/
def Records (t : NodeTable) (depth : Node → Nat) : Prop :=
  ∀ n ∈ t.nodes, depth n = ((t.children n).map depth).foldr max 0 + 1

/-- No node refers to a place where nothing stands, and no way down goes on for ever. -/
structure IsOrdered (t : NodeTable) : Prop where
  child_mem : ∀ n, ∀ c ∈ t.children n, c ∈ t.nodes
  acyclic : WellFounded fun child parent => child ∈ t.children parent

/-- All nodes of a table hang together below one of them, each in one place. -/
structure IsTree (t : NodeTable) (root : Node) : Prop where
  root_mem : root ∈ t.nodes
  root_orphan : ∀ n, root ∉ t.children n
  parent : ∀ c ∈ t.nodes, c ≠ root → ∃! n, c ∈ t.children n
  children_nodup : ∀ n, (t.children n).Nodup
  reachable : ∀ n ∈ t.nodes,
    Relation.ReflTransGen (fun parent child => child ∈ t.children parent) root n

theorem isOrdered_empty : IsOrdered {} where
  child_mem n c hc := absurd (parent_mem hc) (by cases n <;> simp [nodes])
  acyclic := ⟨fun n => .intro n fun c hc => absurd (parent_mem hc) (by cases n <;> simp [nodes])⟩

/-- A node may be added that refers to some of those that are there. -/
theorem IsOrdered.add (h : t.IsOrdered) {n : Node} (hchildren : t'.children n ⊆ t.nodes)
    (hsame : ∀ m ∈ t.nodes, t'.children m = t.children m)
    (hnodes : (t.nodes ++ [n]).Perm t'.nodes) : t'.IsOrdered := by
  have hcases {m : Node} (hm : m ∈ t'.nodes) : m ∈ t.nodes ∨ m = n :=
    (List.mem_append.1 (hnodes.mem_iff.2 hm)).imp id List.mem_singleton.1
  have hmem {m c : Node} (hc : c ∈ t'.children m) : c ∈ t.nodes := by
    rcases hcases (parent_mem hc) with hm | rfl
    · rw [hsame m hm] at hc
      exact h.child_mem m c hc
    · exact hchildren hc
  -- A node that was there refers to what it referred to before, so it is as deep as before.
  have hacc : ∀ m ∈ t.nodes, Acc (fun child parent => child ∈ t'.children parent) m := by
    intro m
    induction m using h.acyclic.induction with
    | h m ih =>
      intro hm
      refine .intro m fun c hc => ih c ?_ (hmem hc)
      rwa [← hsame m hm]
  constructor
  case child_mem =>
    intro m c hc
    exact hnodes.mem_iff.1 (List.mem_append_left _ (hmem hc))
  case acyclic => exact ⟨fun m => .intro m fun c hc => hacc c (hmem hc)⟩

/-- The trees below some roots, with all nodes in them and the height of the highest. -/
inductive Forest (t : NodeTable) : List Node → List Node → Nat → Prop
  | nil : Forest t [] [] 0
  | cons {n : Node} {roots below nodes : List Node} {height height' : Nat}
      (hbelow : Forest t (t.children n) below height) (hrest : Forest t roots nodes height') :
      Forest t (n :: roots) (n :: below ++ nodes) (max (height + 1) height')

namespace Forest

variable {n : Node} {roots roots' below nodes nodes' : List Node} {height height' : Nat}

theorem append (h : t.Forest roots nodes height) (h' : t.Forest roots' nodes' height') :
    t.Forest (roots ++ roots') (nodes ++ nodes') (max height height') := by
  induction h with
  | nil =>
    rw [Nat.zero_max]
    exact h'
  | cons hbelow hrest _ ih =>
    rw [List.append_assoc, Nat.max_assoc]
    exact .cons hbelow ih

theorem single (h : t.Forest (t.children n) below height) :
    t.Forest [n] (n :: below) (height + 1) := by
  have hone := h.cons nil
  rwa [List.append_nil, Nat.max_zero] at hone

/-- A forest stays one in a table that has the same nodes, and more. -/
theorem grow (h : t.Forest roots nodes height)
    (hsame : ∀ n ∈ nodes, t'.children n = t.children n) : t'.Forest roots nodes height := by
  induction h with
  | nil => exact .nil
  | @cons n _ below nodes _ _ _ _ ihbelow ihrest =>
    have hn := hsame n (by simp)
    have hbelow := ihbelow fun m hm => hsame m (by simp [hm])
    rw [← hn] at hbelow
    exact hbelow.cons (ihrest fun m hm => hsame m (by simp [hm]))

/-- The roots and all that is referred to are all nodes. -/
theorem perm (h : t.Forest roots nodes height) :
    (roots ++ nodes.flatMap t.children).Perm nodes := by
  induction h with
  | nil => exact .refl _
  | @cons n roots below nodes _ _ _ _ ihbelow ihrest =>
    rw [List.cons_append, List.cons_append, List.flatMap_cons, List.flatMap_append,
      ← List.append_assoc (t.children n)]
    exact (List.perm_append_comm_assoc _ _ _).trans (ihbelow.append ihrest) |>.cons n

theorem reachable (h : t.Forest roots nodes height) :
    ∀ n ∈ nodes, ∃ root ∈ roots,
      Relation.ReflTransGen (fun parent child => child ∈ t.children parent) root n := by
  induction h with
  | nil => exact fun _ hn => absurd hn List.not_mem_nil
  | @cons n roots below nodes _ _ _ _ ihbelow ihrest =>
    intro m hm
    rcases List.mem_append.1 hm with hm | hm
    · rcases List.mem_cons.1 hm with rfl | hm
      · exact ⟨m, List.mem_cons_self, .refl⟩
      · obtain ⟨c, hc, hdown⟩ := ihbelow m hm
        exact ⟨n, List.mem_cons_self, .head hc hdown⟩
    · obtain ⟨root, hroot, hdown⟩ := ihrest m hm
      exact ⟨root, List.mem_cons_of_mem _ hroot, hdown⟩

theorem way_le (h : t.Forest roots nodes height) :
    ∀ root ∈ roots, ∀ below, t.IsWay (root :: below) → below.length + 1 ≤ height := by
  induction h with
  | nil => exact fun _ hroot => absurd hroot List.not_mem_nil
  | @cons n roots _ _ height height' _ _ ihbelow ihrest =>
    intro root hroot below hway
    rcases List.mem_cons.1 hroot with rfl | hroot
    · cases below with
      | nil =>
        rw [List.length_nil]
        omega
      | cons c below =>
        obtain ⟨hc, hdown⟩ := List.isChain_cons_cons.1 hway
        have hle := ihbelow c hc below hdown
        rw [List.length_cons]
        omega
    · have hle := ihrest root hroot below hway
      omega

theorem exists_way (h : t.Forest roots nodes height) (hpos : 0 < height) :
    ∃ root ∈ roots, ∃ below, t.IsWay (root :: below) ∧ below.length + 1 = height := by
  induction h with
  | nil => exact absurd hpos (Nat.lt_irrefl 0)
  | @cons n roots _ _ height height' _ _ ihbelow ihrest =>
    by_cases hle : height' ≤ height + 1
    · rw [Nat.max_eq_left hle]
      refine ⟨n, List.mem_cons_self, ?_⟩
      by_cases hzero : height = 0
      · exact ⟨[], .singleton n, by rw [hzero, List.length_nil]⟩
      · obtain ⟨c, hc, below, hway, hlength⟩ := ihbelow (Nat.pos_of_ne_zero hzero)
        exact ⟨c :: below, List.isChain_cons_cons.2 ⟨hc, hway⟩, by rw [List.length_cons, hlength]⟩
    · rw [Nat.max_eq_right (Nat.le_of_not_le hle)]
      obtain ⟨root, hroot, hway⟩ := ihrest (by omega)
      exact ⟨root, List.mem_cons_of_mem _ hroot, hway⟩

theorem hasHeight (h : t.Forest (t.children n) below height) : t.HasHeight n (height + 1) where
  exists_way := by
    obtain ⟨root, hroot, hway⟩ := h.single.exists_way (Nat.succ_pos height)
    obtain rfl := List.mem_singleton.1 hroot
    exact hway
  way_le := h.single.way_le n (List.mem_singleton.2 rfl)

/-- Every node of a forest has a height, and none is higher than the forest. -/
theorem exists_hasHeight (h : t.Forest roots nodes height) :
    ∀ n ∈ nodes, ∃ k ≤ height, t.HasHeight n k := by
  induction h with
  | nil => exact fun _ hn => absurd hn List.not_mem_nil
  | @cons n roots below nodes height height' hbelow _ ihbelow ihrest =>
    intro m hm
    rcases List.mem_append.1 hm with hm | hm
    · rcases List.mem_cons.1 hm with rfl | hm
      · exact ⟨height + 1, Nat.le_max_left _ _, hbelow.hasHeight⟩
      · obtain ⟨k, hk, hheight⟩ := ihbelow m hm
        exact ⟨k, by omega, hheight⟩
    · obtain ⟨k, hk, hheight⟩ := ihrest m hm
      exact ⟨k, by omega, hheight⟩

end Forest

theorem HasHeight.unique {n : Node} {height height' : Nat} (h : t.HasHeight n height)
    (h' : t.HasHeight n height') : height = height' := by
  obtain ⟨below, hway, rfl⟩ := h.exists_way
  obtain ⟨below', hway', rfl⟩ := h'.exists_way
  exact Nat.le_antisymm (h'.way_le below hway) (h.way_le below' hway')

/-- If the root and all that is referred to are all nodes, each node has one parent at most. -/
theorem parent_unique {root : Node} (h : (root :: t.nodes.flatMap t.children).Perm t.nodes)
    {n m c : Node} (hn : c ∈ t.children n) (hm : c ∈ t.children m) : n = m := by
  have hnodup := (List.nodup_cons.1 (h.nodup_iff.2 t.nodup_nodes)).2
  have hapart := (List.nodup_flatMap.1 hnodup).2
  have hsymm : Std.Symm (Function.onFun List.Disjoint t.children) :=
    ⟨fun _ _ h => List.disjoint_symm h⟩
  by_contra hne
  exact hapart.forall (parent_mem hn) (parent_mem hm) hne hn hm

/-- A forest of all nodes below one root makes the table a tree. -/
theorem Forest.isTree {root : Node} {nodes : List Node} {height : Nat}
    (h : t.Forest [root] nodes height) (hnodes : nodes.Perm t.nodes) : t.IsTree root := by
  have hperm : (root :: t.nodes.flatMap t.children).Perm t.nodes :=
    ((hnodes.symm.flatMap_right t.children).cons root).trans (h.perm.trans hnodes)
  obtain ⟨horphan, hnodup⟩ := List.nodup_cons.1 (hperm.nodup_iff.2 t.nodup_nodes)
  have hflat {n c : Node} (hc : c ∈ t.children n) : c ∈ t.nodes.flatMap t.children :=
    List.mem_flatMap.2 ⟨n, parent_mem hc, hc⟩
  constructor
  case root_mem => exact hperm.mem_iff.1 List.mem_cons_self
  case root_orphan =>
    intro n hn
    exact horphan (hflat hn)
  case parent =>
    intro c hc hne
    obtain ⟨n, -, hn⟩ := List.mem_flatMap.1 (List.mem_of_ne_of_mem hne (hperm.mem_iff.2 hc))
    exact ⟨n, hn, fun m hm => parent_unique hperm hm hn⟩
  case children_nodup =>
    intro n
    by_cases hn : n ∈ t.nodes
    · exact (List.nodup_flatMap.1 hnodup).1 n hn
    · rw [children_eq_nil hn]
      exact List.nodup_nil
  case reachable =>
    intro n hn
    obtain ⟨top, htop, hdown⟩ := h.reachable n (hnodes.mem_iff.2 hn)
    rwa [← List.mem_singleton.1 htop]

/-- A node is one higher than the highest of its children. -/
theorem HasHeight.node {n : Node} {depth : Node → Nat}
    (h : ∀ c ∈ t.children n, t.HasHeight c (depth c)) :
    t.HasHeight n (((t.children n).map depth).foldr max 0 + 1) where
  exists_way := by
    by_cases hnil : (t.children n).map depth = []
    · exact ⟨[], .singleton n, by rw [hnil, List.foldr_nil, List.length_nil]⟩
    · have hmem := List.maximum_mem (List.foldr_max_of_ne_nil hnil).symm
      obtain ⟨c, hc, heq⟩ := List.mem_map.1 hmem
      obtain ⟨below, hway, hlength⟩ := (h c hc).exists_way
      refine ⟨c :: below, List.isChain_cons_cons.2 ⟨hc, hway⟩, ?_⟩
      rw [List.length_cons, hlength, heq]
      rfl
  way_le := by
    intro below hway
    cases below with
    | nil =>
      rw [List.length_nil]
      exact Nat.le_add_left _ _
    | cons c below =>
      obtain ⟨hc, hdown⟩ := List.isChain_cons_cons.1 hway
      have hle := (h c hc).way_le below hdown
      have hmax : depth c ≤ ((t.children n).map depth).foldr max 0 :=
        List.le_max_of_le' 0 (List.mem_map_of_mem hc) (Nat.le_refl _)
      rw [List.length_cons]
      omega

/-- What is recorded beside a node from what is recorded beside its children is the height of
the node. -/
theorem IsOrdered.hasHeight (h : t.IsOrdered) {depth : Node → Nat} (hdepth : t.Records depth) :
    ∀ n ∈ t.nodes, t.HasHeight n (depth n) := by
  intro n
  induction n using h.acyclic.induction with
  | h n ih =>
    intro hn
    rw [hdepth n hn]
    exact .node fun c hc => ih c hc (h.child_mem n c hc)

/-- Heights can be recorded wherever every node has one. -/
theorem IsOrdered.exists_records (h : t.IsOrdered)
    (hheight : ∀ n ∈ t.nodes, ∃ height, t.HasHeight n height) : ∃ depth, t.Records depth := by
  have htotal (n : Node) : ∃ height, n ∈ t.nodes → t.HasHeight n height := by
    by_cases hn : n ∈ t.nodes
    · obtain ⟨height, hn⟩ := hheight n hn
      exact ⟨height, fun _ => hn⟩
    · exact ⟨0, fun hn' => absurd hn' hn⟩
  choose depth hdepth using htotal
  refine ⟨depth, fun n hn => (hdepth n hn).unique (.node fun c hc => ?_)⟩
  exact hdepth c (h.child_mem n c hc)

/-- In a tree the root is the highest node. -/
theorem Forest.height_lt {root : Node} {nodes : List Node} {height : Nat}
    (h : t.Forest [root] nodes height) {n : Node} (hn : n ∈ nodes) (hne : n ≠ root) {k : Nat}
    (hk : t.HasHeight n k) : k < height := by
  cases h with
  | cons hbelow hrest =>
    cases hrest
    rw [List.append_nil] at hn
    obtain ⟨k', hle, hk'⟩ := hbelow.exists_hasHeight n (List.mem_of_ne_of_mem hne hn)
    rw [hk.unique hk']
    omega

/-- What is recorded beside the nodes of a table are their heights, all within the limit. -/
structure RecordsHeights (t : NodeTable) (limit : Node → Nat) : Prop where
  exists_records : ∃ depth, t.Records depth
  hasHeight : ∀ depth, t.Records depth → ∀ n ∈ t.nodes, t.HasHeight n (depth n)
  height_le : ∀ n ∈ t.nodes, ∀ height, t.HasHeight n height → height ≤ limit n

end NodeTable

end StackScript
