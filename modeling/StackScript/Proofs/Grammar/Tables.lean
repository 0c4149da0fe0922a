import StackScript.Proofs.Grammar.Acceptance
import StackScript.Proofs.Grammar.Progress
import StackScript.Proofs.Tree.Numbering

/-!
What is read from a text, as numbered nodes. The rules keep a height beside each tree that they
hand on, and it is the height of the node that the tree becomes; no text has more nodes than
characters, but for the root of a script. Main statement: the tables of what is read are trees
of bounded height.
-/

namespace StackScript.Grammar

/-- How many nodes a phrase has. -/
def Phrase.count : Phrase → Nat
  | .statement s => s.count
  | .statements ss => stmtsCount ss
  | .expression e | .operand _ e | .callable e => e.count
  | .arguments es | .series es => exprsCount es

/-- There is a token for every node. -/
theorem Derives.count_le {n : Nat} {ts : List Token} {p : Phrase} (h : Derives n ts p) :
    p.count ≤ ts.length := by
  induction h with
  | none | noArguments => exact Nat.zero_le _
  | empty | returnNull | constant | name => exact Nat.le_add_left _ _
  | expression _ ih | tighter _ ih | called _ ih | someArguments _ ih => exact ih
  | @connected _ c _ _ _ l r _ _ _ ihl ihr =>
    have hjoin (p : Position) : (c.join l r p).count = l.count + r.count + 1 := by
      cases c <;> rfl
    simp only [Phrase.count, hjoin, List.length_append, List.length_cons] at *
    omega
  | one _ ih => exact ih
  | more _ _ _ ih ihlast =>
    simp only [Phrase.count, exprsCount_append, exprsCount, List.length_append,
      List.length_cons] at *
    omega
  | _ =>
    simp only [Phrase.count, Expr.count, Stmt.count, stmtsCount, List.length_append,
      List.length_cons, List.length_nil] at *
    omega

theorem stmtsHeight_le {ss : List Stmt} {bound : Nat} (h : ∀ s ∈ ss, s.height ≤ bound) :
    stmtsHeight ss ≤ bound := by
  induction ss with
  | nil => exact Nat.zero_le _
  | cons s ss ih =>
    obtain ⟨hs, hss⟩ := List.forall_mem_cons.1 h
    exact Nat.max_le.2 ⟨hs, ih hss⟩

/-- What the rule hands on is no higher than allowed, and what is recorded as its height is the
height of the node that it becomes in any table. -/
structure Rule.Measures {α : Type} (number : NodeTable → α → Node × NodeTable)
    (rule : Rule (Tall α)) : Prop where
  height_le : ∀ trail s tall, (rule trail s).result = some tall → tall.height ≤ maxHeight
  hasHeight : ∀ trail s tall, (rule trail s).result = some tall →
    ∀ t, (number t tall.tree).2.Fits →
      (number t tall.tree).2.HasHeight (number t tall.tree).1 tall.height

theorem Rule.Measures.of_coupled {α : Type} {height : α → Nat}
    {number : NodeTable → α → Node × NodeTable} {rule : Rule (Tall α)} (move : α → α)
    (hnumber : ∀ (t : NodeTable) a, t.Plants (number t a).2 [(number t a).1] (height a))
    (h : ∀ s, rule.Coupled (.from s) (Tall.Moves move height) rule) :
    rule.Measures number := by
  have hfits (trail : List String) (s : State) (tall : Tall α)
      (htall : (rule trail s).result = some tall) : tall.Fits height := by
    have hrel := (h s trail s s ⟨rfl, .refl s⟩).1
    rw [htall] at hrel
    cases hrel with
    | some hmoves => exact hmoves.fits
  constructor
  case height_le =>
    intro trail s tall htall
    exact (hfits trail s tall htall).height_le
  case hasHeight =>
    intro trail s tall htall t hnumbers
    have hplants := hnumber t tall.tree
    rw [← (hfits trail s tall htall).height_eq] at hplants
    exact hplants.hasHeight hnumbers

/-- The node that an expression becomes in a table, and the table then. -/
def exprNode (t : NodeTable) (e : Expr) : Node × NodeTable := ((e.number t).1.node, (e.number t).2)

/-- The node that a statement becomes in a table, and the table then. -/
def stmtNode (t : NodeTable) (s : Stmt) : Node × NodeTable := ((s.number t).1.node, (s.number t).2)

/-- The rules that make expressions, over those that may open inside them. Calls, indices and
members may follow any expression that has been made. -/
inductive MakesExpr (inner : Nested) : Rule (Tall Expr) → Prop
  | expression : MakesExpr inner inner.expression
  | operand : MakesExpr inner inner.operand
  | operands (rank : Nat) : MakesExpr inner (operands inner rank)
  | primary : MakesExpr inner (primary inner)
  | literal (value : Value) : MakesExpr inner (literal value)
  | parenthesized (p : Position) : MakesExpr inner (parenthesized inner p)
  | functionLiteral : MakesExpr inner (functionLiteral inner)
  | suffixes {base : Tall Expr} (hbase : base.Fits Expr.height) :
      MakesExpr inner (suffixes inner base)
  | condition : MakesExpr inner (condition inner)

/-- The rules that make statements. -/
inductive MakesStmt (inner : Nested) : Rule (Tall Stmt) → Prop
  | nested : MakesStmt inner inner.statement
  | statement : MakesStmt inner (statement inner)
  | block : MakesStmt inner (block inner)
  | declaration : MakesStmt inner (declaration inner)
  | returnStatement : MakesStmt inner (returnStatement inner)
  | ifStatement : MakesStmt inner (ifStatement inner)
  | whileStatement : MakesStmt inner (whileStatement inner)
  | expressionStatement : MakesStmt inner (expressionStatement inner)

theorem MakesExpr.measures {n : Nat} {rule : Rule (Tall Expr)}
    (h : MakesExpr (level n) rule) : rule.Measures exprNode := by
  refine .of_coupled (Expr.moved id) (fun t e => e.plants t) fun s => ?_
  have hlevel := level_coupled (.from s) n
  cases h with
  | expression => exact hlevel.expression
  | operand => exact hlevel.operand
  | operands rank => exact operands_coupled hlevel rank
  | primary => exact primary_coupled hlevel
  | literal value => exact literal_coupled value
  | parenthesized p => exact parenthesized_coupled hlevel p
  | functionLiteral => exact functionLiteral_coupled hlevel
  | @suffixes base hbase =>
    refine suffixes_coupled hlevel ⟨?_, hbase⟩
    exact congrArg (Tall.mk · base.height) base.tree.moved_id.symm
  | condition => exact condition_coupled hlevel

theorem MakesStmt.measures {n : Nat} {rule : Rule (Tall Stmt)}
    (h : MakesStmt (level n) rule) : rule.Measures stmtNode := by
  refine .of_coupled (Stmt.moved id) (fun t s => s.plants t) fun s => ?_
  have hlevel := level_coupled (.from s) n
  cases h with
  | nested => exact hlevel.statement
  | statement => exact statement_coupled hlevel
  | block => exact block_coupled hlevel
  | declaration => exact declaration_coupled hlevel
  | returnStatement => exact returnStatement_coupled hlevel
  | ifStatement => exact ifStatement_coupled hlevel
  | whileStatement => exact whileStatement_coupled hlevel
  | expressionStatement => exact expressionStatement_coupled hlevel

end StackScript.Grammar

namespace StackScript

open Grammar NodeTable

namespace TokenStream

/-- There is a character for every token. -/
theorem length_scan_le (before : Array Scanned) (c : Cursor) :
    (scan before c).ahead.length ≤ before.size + c.rest.length := by
  fun_induction scan before c with
  | case1 before c next hend => exact Nat.le_add_right _ _
  | case2 before c next hgo ih =>
    have hlt : next.2.rest.length < c.rest.length := c.length_nextToken hgo
    rw [Array.size_push] at ih
    omega

theorem length_words_le (file text : String) :
    (ofText file text).words.length ≤ text.length := by
  have hle := length_scan_le #[] (.ofText file text)
  rw [words, List.length_map, ← String.length_toList]
  exact Nat.le_trans hle (Nat.le_of_eq (Nat.zero_add _))

end TokenStream

/-- In a text whose characters can be counted in a word there are no more nodes than numbers. -/
theorem Script.numbered_fits {file text : String} {s : Script}
    (hs : (Script.read file text).result = some s) (htext : text.length < UInt32.size) :
    s.numbered.table.Fits := by
  obtain ⟨-, hderives, -, -⟩ :=
    (Script.ofTokens_eq_some_iff (TokenStream.ended_ofText file text) s).1 hs
  have hcount : stmtsCount s.statements ≤ _ := hderives.count_le
  have hwords := TokenStream.length_words_le file text
  refine .of_size ?_
  have hsize : s.numbered.table.size = 0 + (stmtsCount s.statements + 1) := s.root.size_number {}
  omega

theorem Expr.number_fits {file text : String} {e : Expr}
    (he : (Expr.read file text).result = some e) (htext : text.length < UInt32.size) :
    (e.number {}).2.Fits := by
  obtain ⟨-, hderives, -⟩ :=
    (Expr.ofTokens_eq_some_iff (TokenStream.ended_ofText file text) e).1 he
  have hcount : e.count ≤ _ := hderives.count_le
  have hwords := TokenStream.length_words_le file text
  refine .of_size ?_
  have hsize : (e.number {}).2.size = 0 + e.count := e.size_number {}
  omega

/-- What is read from a text becomes a tree of nodes. Its nodes refer to one another without
gaps and circles. As long as there are numbers for all of them, which are enough for a text
unless it has some 2^32 characters, all but the root have one parent and are found below the
root, and what is recorded beside them are their heights, of which only that of a whole script
may be over the limit, by one. Every rule of the grammar records the same heights for what it
makes, at every level and in every state, whatever was wrong before. -/
theorem tables_are_trees (file text : String) :
    (∀ s, (Script.read file text).result = some s →
      s.numbered.table.IsOrdered ∧ (text.length < UInt32.size → s.numbered.table.Fits) ∧
      (s.numbered.table.Fits → s.numbered.table.IsTree s.numbered.root.node ∧
        s.numbered.table.RecordsHeights fun n =>
          if n = s.numbered.root.node then maxHeight + 1 else maxHeight)) ∧
    (∀ e, (Expr.read file text).result = some e →
      (e.number {}).2.IsOrdered ∧ (text.length < UInt32.size → (e.number {}).2.Fits) ∧
      ((e.number {}).2.Fits → (e.number {}).2.IsTree (e.number {}).1.node ∧
        (e.number {}).2.RecordsHeights fun _ => maxHeight)) ∧
    ∀ n, (∀ rule, MakesExpr (level n) rule → rule.Measures exprNode) ∧
      ∀ rule, MakesStmt (level n) rule → rule.Measures stmtNode := by
  refine ⟨fun s hs => ?_, fun e he => ?_, fun n => ⟨?_, ?_⟩⟩
  · obtain ⟨-, -, hheight, -⟩ :=
      (Script.ofTokens_eq_some_iff (TokenStream.ended_ofText file text) s).1 hs
    have hroot : s.root.height ≤ maxHeight + 1 := Nat.succ_le_succ (stmtsHeight_le hheight)
    have hplants : Plants {} s.numbered.table [s.numbered.root.node] s.root.height :=
      s.root.plants {}
    refine ⟨hplants.isOrdered, Script.numbered_fits hs, fun hfits => ?_⟩
    refine ⟨hplants.isTree hfits, hplants.recordsHeights hfits ?_ fun n hne => ?_⟩
    · rwa [if_pos rfl]
    · rwa [if_neg hne]
  · obtain ⟨-, -, hheight⟩ :=
      (Expr.ofTokens_eq_some_iff (TokenStream.ended_ofText file text) e).1 he
    have hplants := e.plants {}
    refine ⟨hplants.isOrdered, Expr.number_fits he, fun hfits => ⟨hplants.isTree hfits, ?_⟩⟩
    exact hplants.recordsHeights hfits hheight fun _ _ => Nat.le_succ_of_le hheight
  · intro rule hrule
    exact hrule.measures
  · intro rule hrule
    exact hrule.measures

/-- A script with a function in a function's argument, and an expression with a statement in
it. -/
theorem tables_are_trees_nested :
    let script := "f(fun() { x = -1 + 2; if (a) {} else b[0].c(); });"
    let expression := "-a[1] + fun() return;.b"
    (∃ s, (Script.read "f" script).result = some s ∧
      s.numbered.table.exprs.size = 15 ∧ s.numbered.table.Fits ∧
      s.numbered.table.IsTree (.stmt 6) ∧
      s.numbered.table.RecordsHeights fun n => if n = .stmt 6 then 513 else 512) ∧
    ∃ e, (Expr.read "f" expression).result = some e ∧ (e.number {}).2.Fits ∧
      (e.number {}).2.IsTree (.expr 7) ∧ (e.number {}).2.RecordsHeights fun _ => 512 := by
  intro script expression
  constructor
  · obtain ⟨s, hs⟩ := Option.isSome_iff_exists.1
      (show (Script.read "f" script).result.isSome by decide +kernel)
    have hnumbers : (Script.read "f" script).result.map (fun s =>
        (s.numbered.table.exprs.size, s.numbered.root.node)) = some (15, .stmt 6) := by
      decide +kernel
    rw [hs, Option.map_some, Option.some_inj, Prod.mk.injEq] at hnumbers
    obtain ⟨hsize, hroot⟩ := hnumbers
    obtain ⟨-, hshort, hread⟩ := (tables_are_trees "f" script).1 s hs
    have hfits := hshort (by decide)
    obtain ⟨htree, hheights⟩ := hread hfits
    rw [hroot] at htree hheights
    exact ⟨s, hs, hsize, hfits, htree, hheights⟩
  · obtain ⟨e, he⟩ := Option.isSome_iff_exists.1
      (show (Expr.read "f" expression).result.isSome by decide +kernel)
    have hroot : (Expr.read "f" expression).result.map (fun e => (e.number {}).1.node) =
        some (.expr 7) := by decide +kernel
    rw [he, Option.map_some, Option.some_inj] at hroot
    obtain ⟨-, hshort, hread⟩ := (tables_are_trees "f" expression).2.1 e he
    have hfits := hshort (by decide)
    obtain ⟨htree, hheights⟩ := hread hfits
    rw [hroot] at htree
    exact ⟨e, he, hfits, htree, hheights⟩

end StackScript
