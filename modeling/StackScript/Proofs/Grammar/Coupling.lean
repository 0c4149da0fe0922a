import StackScript.Proofs.Grammar.Soundness
import StackScript.Proofs.Tree.Moved

/-!
Two runs of the rules side by side. A coupling relates the states of the runs; it is kept when
both of them settle, drop a token or tell an error, and it lets both see the same token, except
for its place. Rules look at nothing else, so they keep every coupling and make the same trees
of the same heights at the places that correspond. That is proved once of each way in which
rules are built and, by induction on the levels left to open, of all rules of the grammar. What
is then claimed of two runs is a matter of the coupling alone.
-/

namespace StackScript.Grammar

/-- A relation between the states of two runs that the rules cannot break. -/
structure Coupling where
  /-- Where the second run has what the first one has at a place. -/
  place : Position → Position
  holds : State → State → Prop
  left : ∀ {s s'}, holds s s' → s'.left = s.left
  next : ∀ {s s'}, holds s s' → s'.next = s.next.moved place
  settle : ∀ {s s'}, holds s s' → holds s.settle s'.settle
  drop : ∀ {s s'}, holds s s' → holds s.settle.drop s'.settle.drop
  tell : ∀ {s s'}, holds s s' → ∀ position fault arguments trail,
    holds (s.tell (.error position fault arguments trail))
      (s'.tell (.error (place position) fault arguments trail))

namespace Coupling

variable (C : Coupling) {s s' : State}

theorem next_kind (h : C.holds s s') : s'.next.kind = s.next.kind := by
  rw [C.next h]
  rfl

theorem ahead_nil (h : C.holds s s') : s'.ahead = [] ↔ s.ahead = [] := by
  have hleft := C.left h
  rw [s.left_eq, s'.left_eq] at hleft
  rw [← List.length_eq_zero_iff, ← List.length_eq_zero_iff, hleft]

theorem skip (h : C.holds s s') : C.holds s.skip s'.skip := by
  fun_induction State.skip s generalizing s' with
  | case1 s hnil =>
    rw [State.skip, dif_pos ((C.ahead_nil h).2 hnil)]
    exact C.settle h
  | case2 s hnil hstarts =>
    rw [← C.next_kind h] at hstarts
    rw [State.skip, dif_neg (mt (C.ahead_nil h).1 hnil), if_pos hstarts]
    exact C.settle h
  | case3 s hnil hstarts hkind =>
    rw [← C.next_kind h] at hstarts hkind
    rw [State.skip, dif_neg (mt (C.ahead_nil h).1 hnil), if_neg hstarts, if_pos hkind]
    exact C.drop h
  | case4 s hnil hstarts hkind ih =>
    rw [← C.next_kind h] at hstarts hkind
    rw [State.skip.eq_def s', dif_neg (mt (C.ahead_nil h).1 hnil), if_neg hstarts, if_neg hkind]
    exact ih (C.drop h)

theorem recover (h : C.holds s s') (inBlock : Bool) :
    C.holds (s.recover inBlock) (s'.recover inBlock) := by
  unfold State.recover
  rw [C.next_kind h]
  split
  · exact C.settle h
  · split
    · exact C.drop h
    · exact C.skip (C.drop h)

end Coupling

namespace Rule

variable {α β : Type}

/-- Started in these states, both rules fail, or they make what `V` relates; the states behind
them are coupled again. -/
def CoupledAt (C : Coupling) (V : α → α → Prop) (rule rule' : Rule α) (trail : List String)
    (s s' : State) : Prop :=
  Option.Rel V (rule trail s).result (rule' trail s').result ∧
    C.holds (rule trail s).state (rule' trail s').state

def Coupled (C : Coupling) (V : α → α → Prop) (rule rule' : Rule α) : Prop :=
  ∀ trail s s', C.holds s s' → rule.CoupledAt C V rule' trail s s'

variable {C : Coupling} {V : α → α → Prop} {W : β → β → Prop} {rule rule' : Rule α}

theorem CoupledAt.bind {f f' : α → Rule β} {trail : List String} {s s' : State}
    (h : rule.CoupledAt C V rule' trail s s')
    (hf : ∀ a a' s₁ s₁', s₁.left ≤ s.left → V a a' → C.holds s₁ s₁' →
      (f a).CoupledAt C W (f' a') trail s₁ s₁') :
    (rule >>= f).CoupledAt C W (rule' >>= f') trail s s' := by
  change (Rule.bind rule f).CoupledAt C W (Rule.bind rule' f') trail s s'
  unfold CoupledAt Outcome.result Outcome.state at h ⊢
  unfold Rule.bind
  generalize rule trail s = o at h ⊢
  generalize rule' trail s' = o' at h ⊢
  obtain ⟨⟨result, s₁⟩, hbefore, told⟩ := o
  obtain ⟨⟨result', s₁'⟩, hbefore', told'⟩ := o'
  obtain ⟨hrel, hholds⟩ := h
  cases hrel with
  | none => exact ⟨.none, hholds⟩
  | some hV => exact hf _ _ s₁ s₁' hbefore.left_le hV hholds

theorem CoupledAt.result_eq {trail : List String} {s s' : State}
    (h : rule.CoupledAt C Eq rule' trail s s') :
    (rule' trail s').result = (rule trail s).result := by
  have hresult := h.1
  generalize (rule trail s).result = result at hresult ⊢
  generalize (rule' trail s').result = result' at hresult ⊢
  cases hresult with
  | none => rfl
  | some heq => rw [heq]

namespace Coupled

theorem pure {a a' : α} (h : V a a') : Coupled C V (Pure.pure a : Rule α) (Pure.pure a') :=
  fun _ _ _ hs => ⟨.some h, hs⟩

theorem bind {f f' : α → Rule β} (h : rule.Coupled C V rule')
    (hf : ∀ a a', V a a' → (f a).Coupled C W (f' a')) :
    (rule >>= f).Coupled C W (rule' >>= f') := by
  intro trail s s' hs
  refine (h trail s s' hs).bind fun a a' s₁ s₁' _ ha hs₁ => ?_
  exact hf a a' ha trail s₁ s₁' hs₁

theorem mono {W : α → α → Prop} (h : rule.Coupled C V rule') (hVW : ∀ a a', V a a' → W a a') :
    rule.Coupled C W rule' := by
  intro trail s s' hs
  obtain ⟨hrel, hholds⟩ := h trail s s' hs
  refine ⟨?_, hholds⟩
  generalize (rule trail s).result = result at hrel ⊢
  generalize (rule' trail s').result = result' at hrel ⊢
  cases hrel with
  | none => exact .none
  | some hV => exact .some (hVW _ _ hV)

theorem peek : Rule.peek.Coupled C (fun t t' => t' = t.moved C.place) Rule.peek :=
  fun _ _ _ hs => ⟨.some (C.next (C.settle hs)), C.settle hs⟩

theorem take : Rule.take.Coupled C (fun t t' => t' = t.moved C.place) Rule.take :=
  fun _ _ _ hs => ⟨.some (C.next (C.settle hs)), C.drop hs⟩

/-- Both runs look at the next token. -/
theorem peek_bind {f f' : Token → Rule α}
    (h : ∀ t, (f t).Coupled C V (f' (t.moved C.place))) :
    (Rule.peek >>= f).Coupled C V (Rule.peek >>= f') := by
  refine peek.bind fun t t' ht => ?_
  subst ht
  exact h t

theorem take_bind {f f' : Token → Rule α}
    (h : ∀ t, (f t).Coupled C V (f' (t.moved C.place))) :
    (Rule.take >>= f).Coupled C V (Rule.take >>= f') := by
  refine take.bind fun t t' ht => ?_
  subst ht
  exact h t

theorem fail (position : Position) (fault : Fault) (arguments : List String) :
    Coupled C V (Rule.fail position fault arguments : Rule α)
      (Rule.fail (C.place position) fault arguments) :=
  fun trail _ _ hs => ⟨.none, C.tell hs position fault arguments trail.reverse⟩

theorem within (name : String) (h : rule.Coupled C V rule') :
    (rule.within name).Coupled C V (rule'.within name) :=
  fun trail => h (name :: trail)

theorem require (kind : TokenKind) :
    (Rule.require kind).Coupled C (fun t t' => t' = t.moved C.place) (Rule.require kind) := by
  refine peek_bind fun token => ?_
  by_cases hkind : token.kind = kind
  · rw [if_pos hkind, if_pos (by exact hkind)]
    exact take
  · rw [if_neg hkind, if_neg (by exact hkind)]
    exact fail _ _ _

theorem require_bind {kind : TokenKind} {f f' : Token → Rule α}
    (h : ∀ t, (f t).Coupled C V (f' (t.moved C.place))) :
    (Rule.require kind >>= f).Coupled C V (Rule.require kind >>= f') := by
  refine (require kind).bind fun t t' ht => ?_
  subst ht
  exact h t

theorem accept (kind : TokenKind) :
    (Rule.accept kind).Coupled C Eq (Rule.accept kind) := by
  refine peek_bind fun token => ?_
  by_cases hkind : token.kind = kind
  · rw [if_pos hkind, if_pos (by exact hkind)]
    exact take_bind fun _ => pure rfl
  · rw [if_neg hkind, if_neg (by exact hkind)]
    exact pure rfl

theorem accept_bind {kind : TokenKind} {f f' : Bool → Rule α}
    (h : ∀ found, (f found).Coupled C V (f' found)) :
    (Rule.accept kind >>= f).Coupled C V (Rule.accept kind >>= f') := by
  refine (accept kind).bind fun found found' hfound => ?_
  subst hfound
  exact h found

/-- By induction on how many tokens are left. -/
theorem chain {step step' : α → Token → Option (Rule α)}
    (hstep : ∀ a a' t, V a a' →
      Option.Rel (Coupled C V) (step a t) (step' a' (t.moved C.place)))
    {a a' : α} (ha : V a a') : (Rule.chain step a).Coupled C V (Rule.chain step' a') := by
  intro trail s s' hs
  induction hn : s.left using Nat.strongRecOn generalizing a a' s s' with
  | ind n ih =>
    have hround := hstep a a' s.next ha
    rw [← C.next hs] at hround
    unfold CoupledAt Outcome.result Outcome.state
    by_cases hend : s.ahead = [] ∨ step a s.next = none
    · have hend' : s'.ahead = [] ∨ step' a' s'.next = none := by
        rcases hend with hnil | hnone
        · exact .inl ((C.ahead_nil hs).2 hnil)
        · rw [hnone] at hround
          generalize step' a' s'.next = next at hround
          cases hround
          exact .inr rfl
      rw [chain_stop trail hend, chain_stop trail hend']
      exact ⟨.some ha, C.settle hs⟩
    · obtain ⟨hahead, hnone⟩ := not_or.1 hend
      obtain ⟨rule, hrule⟩ := Option.ne_none_iff_exists'.1 hnone
      obtain ⟨rule', hrule', hcoupled⟩ : ∃ rule', step' a' s'.next = some rule' ∧
          rule.Coupled C V rule' := by
        rw [hrule] at hround
        generalize step' a' s'.next = next at hround
        cases hround with
        | some hcoupled => exact ⟨_, rfl, hcoupled⟩
      rw [chain_go trail hahead hrule, chain_go trail (mt (C.ahead_nil hs).1 hahead) hrule']
      have hlt : s.settle.drop.left < n := by
        have hpos := s.left_pos hahead
        rw [State.left_drop, State.left_settle]
        omega
      refine (hcoupled trail _ _ (C.drop hs)).bind fun b b' s₁ s₁' hle hb hs₁ => ?_
      exact ih _ (Nat.lt_of_le_of_lt hle hlt) hb s₁ s₁' hs₁ rfl

end Coupled

section Statements

variable (inBlock : Bool) (statement : Rule (Tall Stmt)) (all : Array (Tall Stmt))
  (trail : List String)

/-- The statements and the place behind the next round. -/
def round (s : State) : Array (Tall Stmt) × State :=
  (afterStatement inBlock all (statement trail s.settle)).1

theorem statements_round_go {s : State} (h : endsStatements inBlock s.next.kind = false)
    (hlt : (round inBlock statement all trail s).2.left < s.left) :
    (statements inBlock statement all trail s).1 =
      (statements inBlock statement (round inBlock statement all trail s).1 trail
        (round inBlock statement all trail s).2).1 := by
  rw [statements, if_neg (by simp [h]), if_pos (by exact hlt)]
  rfl

theorem statements_round_stop {s : State} (h : endsStatements inBlock s.next.kind = false)
    (hle : ¬ (round inBlock statement all trail s).2.left < s.left) :
    (statements inBlock statement all trail s).1 =
      (some (round inBlock statement all trail s).1, (round inBlock statement all trail s).2) := by
  rw [statements, if_neg (by simp [h]), if_neg (by exact hle)]
  rfl

end Statements

namespace Coupled

variable {V : Tall Stmt → Tall Stmt → Prop} {W : Array (Tall Stmt) → Array (Tall Stmt) → Prop}
  {statement statement' : Rule (Tall Stmt)} {all all' : Array (Tall Stmt)}

theorem round (h : statement.Coupled C V statement')
    (hpush : ∀ all all' t t', W all all' → V t t' → W (all.push t) (all'.push t'))
    (hall : W all all') (inBlock : Bool) (trail : List String) {s s' : State}
    (hs : C.holds s s') :
    W (Rule.round inBlock statement all trail s).1 (Rule.round inBlock statement' all' trail s').1 ∧
      C.holds (Rule.round inBlock statement all trail s).2
        (Rule.round inBlock statement' all' trail s').2 := by
  have hone := h trail s.settle s'.settle (C.settle hs)
  unfold CoupledAt Outcome.result Outcome.state at hone
  unfold Rule.round
  generalize statement trail s.settle = o at hone ⊢
  generalize statement' trail s'.settle = o' at hone ⊢
  obtain ⟨⟨result, s₁⟩, hbefore, told⟩ := o
  obtain ⟨⟨result', s₁'⟩, hbefore', told'⟩ := o'
  obtain ⟨hrel, hholds⟩ := hone
  cases hrel with
  | none => exact ⟨hall, C.recover hholds inBlock⟩
  | some hV => exact ⟨hpush _ _ _ _ hall hV, hholds⟩

/-- By induction on how many tokens are left. -/
theorem statements (inBlock : Bool) (h : statement.Coupled C V statement')
    (hpush : ∀ all all' t t', W all all' → V t t' → W (all.push t) (all'.push t'))
    (hall : W all all') :
    (Grammar.statements inBlock statement all).Coupled C W
      (Grammar.statements inBlock statement' all') := by
  intro trail s s' hs
  induction hn : s.left using Nat.strongRecOn generalizing all all' s s' with
  | ind n ih =>
    unfold CoupledAt Outcome.result Outcome.state
    cases hend : endsStatements inBlock s.next.kind with
    | true =>
      have hend' : endsStatements inBlock s'.next.kind = true := by rwa [C.next_kind hs]
      rw [statements_end inBlock statement all trail hend,
        statements_end inBlock statement' all' trail hend']
      exact ⟨.some hall, C.settle hs⟩
    | false =>
      have hend' : endsStatements inBlock s'.next.kind = false := by rwa [C.next_kind hs]
      obtain ⟨hW, hholds⟩ := h.round hpush hall inBlock trail hs
      have hleft := C.left hs
      have hleft' := C.left hholds
      by_cases hlt : (Rule.round inBlock statement all trail s).2.left < s.left
      · rw [statements_round_go inBlock statement all trail hend hlt,
          statements_round_go inBlock statement' all' trail hend' (by omega)]
        exact ih _ (hn ▸ hlt) hW _ _ hholds rfl
      · rw [statements_round_stop inBlock statement all trail hend hlt,
          statements_round_stop inBlock statement' all' trail hend' (by omega)]
        exact ⟨.some hW, hholds⟩

end Coupled

end Rule

section Rules

variable {α : Type} (C : Coupling)

/-- The second tree is the first one, moved, and both have their heights beside them. -/
structure Tall.Moves (move : α → α) (height : α → Nat) (t t' : Tall α) : Prop where
  eq : t' = ⟨move t.tree, t.height⟩
  fits : t.Fits height

/-- The same of each of several trees. -/
structure Tall.AllMove (move : α → α) (height : α → Nat) (all all' : Array (Tall α)) : Prop where
  eq : all' = all.map fun t => ⟨move t.tree, t.height⟩
  fits : ∀ t ∈ all.toList, t.Fits height

namespace Tall.AllMove

variable {move : α → α} {height : α → Nat} {all all' : Array (Tall α)}

theorem empty : AllMove move height #[] #[] := ⟨by simp, by simp⟩

theorem push {t t' : Tall α} (h : AllMove move height all all') (ht : t.Moves move height t') :
    AllMove move height (all.push t) (all'.push t') where
  eq := by rw [h.eq, ht.eq, Array.map_push]
  fits := by
    intro u hu
    rw [Array.toList_push] at hu
    rcases List.mem_append.1 hu with hmem | hlast
    · exact h.fits u hmem
    · obtain rfl := List.mem_singleton.1 hlast
      exact ht.fits

theorem trees (h : AllMove move height all all') :
    (all'.map Tall.tree).toList = (all.map Tall.tree).toList.map move := by
  simp [h.eq]

theorem foldl_eq (h : AllMove move height all all') :
    all'.foldl (fun h t => max h t.height) 0 = all.foldl (fun h t => max h t.height) 0 := by
  rw [h.eq, Array.foldl_map]

end Tall.AllMove

abbrev Coupling.expr : Tall Expr → Tall Expr → Prop :=
  Tall.Moves (Expr.moved C.place) Expr.height

abbrev Coupling.stmt : Tall Stmt → Tall Stmt → Prop :=
  Tall.Moves (Stmt.moved C.place) Stmt.height

/-- The rules that may open inside one another, in two runs. -/
structure Nested.Coupled (inner inner' : Nested) : Prop where
  statement : inner.statement.Coupled C C.stmt inner'.statement
  expression : inner.expression.Coupled C C.expr inner'.expression
  operand : inner.operand.Coupled C C.expr inner'.operand

variable {C} {inner inner' : Nested}

open Rule

theorem node_coupled {move : α → α} {height : α → Nat} {tree : α} {childHeight : Nat}
    (h : height tree = childHeight + 1) (position : Position) :
    (node tree childHeight position).Coupled C (Tall.Moves move height)
      (node (move tree) childHeight (C.place position)) := by
  unfold node
  by_cases hheight : maxHeight < childHeight + 1
  · rw [if_pos hheight, if_pos hheight]
    exact .fail _ _ _
  · rw [if_neg hheight, if_neg hheight]
    exact .pure ⟨rfl, h.symm, Nat.not_lt.1 hheight⟩

theorem exprNode_coupled (tree : Expr) {childHeight : Nat} (h : tree.height = childHeight + 1)
    (position : Position) :
    (node tree childHeight position).Coupled C C.expr
      (node (tree.moved C.place) childHeight (C.place position)) := node_coupled h position

theorem stmtNode_coupled (tree : Stmt) {childHeight : Nat} (h : tree.height = childHeight + 1)
    (position : Position) :
    (node tree childHeight position).Coupled C C.stmt
      (node (tree.moved C.place) childHeight (C.place position)) := node_coupled h position

theorem tooDeep_coupled {V : α → α → Prop} :
    (tooDeep : Rule α).Coupled C V tooDeep := .peek_bind fun _ => .fail _ _ _

theorem operators_coupled (rank : Nat) {next next' : Rule (Tall Expr)}
    (h : next.Coupled C C.expr next') :
    (operators (rankOperator rank) next).Coupled C C.expr
      (operators (rankOperator rank) next') := by
  refine h.bind fun first first' hfirst => .chain (fun left left' sign hleft => ?_) hfirst
  obtain ⟨rfl, hleft⟩ := hleft
  cases hmake : rankOperator rank sign.kind with
  | none =>
    have hmake' : rankOperator rank (sign.moved C.place).kind = none := hmake
    rw [hmake', Option.map_none, Option.map_none]
    exact .none
  | some make =>
    have hmake' : rankOperator rank (sign.moved C.place).kind = some make := hmake
    rw [hmake', Option.map_some, Option.map_some]
    obtain ⟨c, -, -, rfl⟩ := exists_connective hmake
    refine .some (h.bind fun right right' hright => ?_)
    obtain ⟨rfl, hright⟩ := hright
    have hmoved : (c.join left.tree right.tree sign.position).moved C.place =
        c.join (left.tree.moved C.place) (right.tree.moved C.place) (C.place sign.position) := by
      cases c <;> rfl
    rw [hleft.height_eq, hright.height_eq]
    dsimp only [Token.moved]
    rw [← hmoved]
    refine node_coupled ?_ _
    cases c <;> rfl

theorem argumentList_coupled (h : inner.Coupled C inner') (close : TokenKind) :
    (argumentList inner close).Coupled C
      (fun es es' => es' = ⟨es.tree.map (Expr.moved C.place), es.height⟩ ∧
        es.height = exprsHeight es.tree)
      (argumentList inner' close) := by
  refine .within _ (.accept_bind fun isClosed => ?_)
  cases isClosed with
  | true => exact .pure ⟨rfl, rfl⟩
  | false =>
    refine h.expression.bind fun first first' hfirst => ?_
    have hstart : Tall.AllMove (Expr.moved C.place) Expr.height #[first] #[first'] :=
      Tall.AllMove.empty.push hfirst
    refine .bind (.chain (fun before before' token hbefore => ?_) hstart) fun all all' hall => ?_
    · by_cases hcomma : token.kind = .comma
      · rw [if_pos hcomma, if_pos (by exact hcomma)]
        exact .some (h.expression.bind fun e e' he => .pure (hbefore.push he))
      · rw [if_neg hcomma, if_neg (by exact hcomma)]
        exact .none
    · refine .require_bind fun _ => .pure ⟨?_, ?_⟩
      · rw [hall.trees, hall.foldl_eq]
      · have hheight := foldl_height_exprs all.toList fun e he => (hall.fits e he).height_eq
        simpa using hheight

theorem suffixes_coupled (h : inner.Coupled C inner') {base base' : Tall Expr}
    (hbase : C.expr base base') :
    (suffixes inner base).Coupled C C.expr (suffixes inner' base') := by
  have hposition : base'.tree.position = C.place base.tree.position := by
    rw [hbase.eq]
    exact Expr.position_moved _ _
  unfold suffixes
  rw [hposition]
  refine .chain (fun callee callee' token hcallee => ?_) hbase
  obtain ⟨rfl, hcallee⟩ := hcallee
  have hkind : (token.moved C.place).kind = token.kind := rfl
  rw [hkind]
  split
  · refine .some ((argumentList_coupled h .closeParen).bind fun all all' hall => ?_)
    obtain ⟨rfl, hheight⟩ := hall
    dsimp only
    rw [← exprsMoved_eq_map]
    refine exprNode_coupled (.call callee.tree all.tree _) ?_ _
    rw [Expr.height, hcallee.height_eq, hheight]
  · refine .some ((argumentList_coupled h .closeBracket).bind fun all all' hall => ?_)
    obtain ⟨rfl, hheight⟩ := hall
    dsimp only
    rw [← exprsMoved_eq_map]
    refine exprNode_coupled (.index callee.tree all.tree _) ?_ _
    rw [Expr.height, hcallee.height_eq, hheight]
  · refine .some (.require_bind fun name => ?_)
    have hchild := exprNode_coupled (C := C) (.name name.lexeme name.position) rfl name.position
    refine hchild.bind fun child child' hchild => ?_
    obtain ⟨rfl, hchild⟩ := hchild
    refine exprNode_coupled (.member callee.tree child.tree _) ?_ _
    rw [Expr.height, hcallee.height_eq, hchild.height_eq]
  · exact .none

theorem literal_coupled (value : Value) :
    (literal value).Coupled C C.expr (literal value) :=
  .take_bind fun token => exprNode_coupled (.literal value token.position) rfl _

theorem functionLiteral_coupled (h : inner.Coupled C inner') :
    (functionLiteral inner).Coupled C C.expr (functionLiteral inner') := by
  refine .within _ (.require_bind fun keyword => ?_)
  refine .require_bind fun _ => .require_bind fun _ => ?_
  refine h.statement.bind fun body body' hbody => ?_
  obtain ⟨rfl, hbody⟩ := hbody
  refine exprNode_coupled (.function body.tree keyword.position) ?_ _
  rw [Expr.height, hbody.height_eq]

theorem parenthesized_coupled (h : inner.Coupled C inner') (position : Position) :
    (parenthesized inner position).Coupled C C.expr
      (parenthesized inner' (C.place position)) := by
  refine .take_bind fun _ => h.expression.bind fun e e' he => .peek_bind fun close => ?_
  obtain ⟨rfl, he⟩ := he
  have hgroup : (node (.group e.tree position) e.height position).Coupled C C.expr
      (node (.group (e.tree.moved C.place) (C.place position)) e.height (C.place position)) := by
    refine exprNode_coupled (.group e.tree position) ?_ _
    rw [Expr.height, he.height_eq]
  by_cases hkind : close.kind = .closeParen
  · rw [if_neg fun hne => hne hkind, if_neg fun hne => hne hkind]
    exact .take_bind fun _ => hgroup
  · rw [if_pos hkind, if_pos (by exact hkind)]
    refine Coupled.bind (V := Eq) (.fail _ _ _) fun _ _ _ => ?_
    exact .take_bind fun _ => hgroup

theorem primary_coupled (h : inner.Coupled C inner') :
    (primary inner).Coupled C C.expr (primary inner') := by
  refine .peek_bind fun token => ?_
  have hkind : (token.moved C.place).kind = token.kind := rfl
  have hliteral : (token.moved C.place).literal = token.literal := rfl
  rw [hkind, hliteral]
  split
  · exact literal_coupled _
  · exact literal_coupled _
  · exact literal_coupled _
  · split
    · exact literal_coupled _
    · exact .fail _ _ _
  · split
    · exact literal_coupled _
    · exact .fail _ _ _
  · split
    · exact literal_coupled _
    · exact .fail _ _ _
  · exact parenthesized_coupled h _
  · refine .take_bind fun name => ?_
    have hname := exprNode_coupled (C := C) (.name name.lexeme name.position) rfl name.position
    exact hname.bind fun base base' hbase => suffixes_coupled h hbase
  · exact (functionLiteral_coupled h).bind fun base base' hbase => suffixes_coupled h hbase
  · exact .fail _ _ _
  · exact .fail _ _ _

theorem unary_coupled (h : inner.Coupled C inner') :
    (unary inner).Coupled C C.expr (unary inner') := by
  refine .peek_bind fun token => ?_
  have hkind : (token.moved C.place).kind = token.kind := rfl
  rw [hkind]
  split
  · exact primary_coupled h
  · rename_i op _
    refine .take_bind fun _ => h.operand.bind fun operand operand' hoperand => ?_
    obtain ⟨rfl, hoperand⟩ := hoperand
    refine exprNode_coupled (.unary op operand.tree token.position) ?_ _
    rw [Expr.height, hoperand.height_eq]

theorem operands_coupled (h : inner.Coupled C inner') (rank : Nat) :
    (operands inner rank).Coupled C C.expr (operands inner' rank) := by
  induction rank with
  | zero => exact unary_coupled h
  | succ rank ih => exact operators_coupled (rank + 1) ih

theorem expression_coupled (h : inner.Coupled C inner') :
    (expression inner).Coupled C C.expr (expression inner') := operands_coupled h loosest

theorem statements_coupled (h : inner.Coupled C inner') (inBlock : Bool) :
    (statements inBlock inner.statement #[]).Coupled C
      (Tall.AllMove (Stmt.moved C.place) Stmt.height)
      (statements inBlock inner'.statement #[]) :=
  .statements inBlock h.statement (fun _ _ _ _ hall ht => hall.push ht) .empty

theorem block_coupled (h : inner.Coupled C inner') :
    (block inner).Coupled C C.stmt (block inner') := by
  refine .within _ (.require_bind fun opening => ?_)
  refine (statements_coupled h true).bind fun body body' hbody => .require_bind fun _ => ?_
  rw [hbody.trees, hbody.foldl_eq, ← stmtsMoved_eq_map]
  refine stmtNode_coupled (.block (body.map Tall.tree).toList opening.position) ?_ _
  have hheight := foldl_height_stmts body.toList fun s hs => (hbody.fits s hs).height_eq
  rw [Stmt.height, Array.toList_map, ← hheight, Array.foldl_toList]

theorem declaration_coupled (h : inner.Coupled C inner') :
    (declaration inner).Coupled C C.stmt (declaration inner') := by
  refine .within _ (.require_bind fun keyword => .require_bind fun name => ?_)
  refine .require_bind fun _ => h.expression.bind fun value value' hvalue => ?_
  obtain ⟨rfl, hvalue⟩ := hvalue
  refine .require_bind fun _ => ?_
  refine stmtNode_coupled (.declare name.lexeme value.tree keyword.position) ?_ _
  rw [Stmt.height, hvalue.height_eq]

theorem returnStatement_coupled (h : inner.Coupled C inner') :
    (returnStatement inner).Coupled C C.stmt (returnStatement inner') := by
  refine .within _ (.require_bind fun keyword => .accept_bind fun isBare => ?_)
  cases isBare with
  | true => exact stmtNode_coupled (.returnNull keyword.position) rfl keyword.position
  | false =>
    refine h.expression.bind fun value value' hvalue => .require_bind fun _ => ?_
    obtain ⟨rfl, hvalue⟩ := hvalue
    refine stmtNode_coupled (.returnValue value.tree keyword.position) ?_ _
    rw [Stmt.height, hvalue.height_eq]

theorem condition_coupled (h : inner.Coupled C inner') :
    (condition inner).Coupled C C.expr (condition inner') := by
  refine .require_bind fun _ => h.expression.bind fun value value' hvalue => ?_
  exact .require_bind fun _ => .pure hvalue

theorem ifStatement_coupled (h : inner.Coupled C inner') :
    (ifStatement inner).Coupled C C.stmt (ifStatement inner') := by
  refine .within _ (.require_bind fun keyword => ?_)
  refine (condition_coupled h).bind fun test test' htest => ?_
  refine h.statement.bind fun body body' hbody => .accept_bind fun hasElse => ?_
  obtain ⟨rfl, htest⟩ := htest
  obtain ⟨rfl, hbody⟩ := hbody
  cases hasElse with
  | true =>
    refine h.statement.bind fun other other' hother => ?_
    obtain ⟨rfl, hother⟩ := hother
    refine stmtNode_coupled (.ifElse test.tree body.tree other.tree keyword.position) ?_ _
    rw [Stmt.height, htest.height_eq, hbody.height_eq, hother.height_eq]
  | false =>
    refine stmtNode_coupled (.ifThen test.tree body.tree keyword.position) ?_ _
    rw [Stmt.height, htest.height_eq, hbody.height_eq]

theorem whileStatement_coupled (h : inner.Coupled C inner') :
    (whileStatement inner).Coupled C C.stmt (whileStatement inner') := by
  refine .within _ (.require_bind fun keyword => ?_)
  refine (condition_coupled h).bind fun test test' htest => ?_
  refine h.statement.bind fun body body' hbody => ?_
  obtain ⟨rfl, htest⟩ := htest
  obtain ⟨rfl, hbody⟩ := hbody
  refine stmtNode_coupled (.whileDo test.tree body.tree keyword.position) ?_ _
  rw [Stmt.height, htest.height_eq, hbody.height_eq]

theorem expressionStatement_coupled (h : inner.Coupled C inner') :
    (expressionStatement inner).Coupled C C.stmt (expressionStatement inner') := by
  refine .within _ (.peek_bind fun start => ?_)
  refine h.expression.bind fun value value' hvalue => .accept_bind fun isAssignment => ?_
  obtain ⟨rfl, hvalue⟩ := hvalue
  cases isAssignment with
  | true =>
    refine h.expression.bind fun source source' hsource => .require_bind fun _ => ?_
    obtain ⟨rfl, hsource⟩ := hsource
    refine stmtNode_coupled (.assign value.tree source.tree start.position) ?_ _
    rw [Stmt.height, hvalue.height_eq, hsource.height_eq]
  | false =>
    refine .require_bind fun _ => ?_
    refine stmtNode_coupled (.expression value.tree start.position) ?_ _
    rw [Stmt.height, hvalue.height_eq]

theorem statement_coupled (h : inner.Coupled C inner') :
    (statement inner).Coupled C C.stmt (statement inner') := by
  refine .within _ (.peek_bind fun start => ?_)
  have hkind : (start.moved C.place).kind = start.kind := rfl
  rw [hkind]
  split
  · exact .take_bind fun _ => stmtNode_coupled (.empty start.position) rfl _
  · exact block_coupled h
  · exact declaration_coupled h
  · exact returnStatement_coupled h
  · exact ifStatement_coupled h
  · exact whileStatement_coupled h
  · exact .fail _ _ _
  · exact .fail _ _ _
  · exact expressionStatement_coupled h

theorem level_coupled (C : Coupling) (n : Nat) : (level n).Coupled C (level n) := by
  induction n with
  | zero => exact ⟨tooDeep_coupled, tooDeep_coupled, tooDeep_coupled⟩
  | succ n ih => exact ⟨statement_coupled ih, expression_coupled ih, unary_coupled ih⟩

/-- The rule for a whole script, with these rules for what may open inside it. -/
def scriptOf (inner : Nested) : Rule Script := do
  let position := (← Rule.peek).position
  let body ← statements false inner.statement #[]
  return ⟨(body.map Tall.tree).toList, position⟩

theorem scriptOf_run (inner : Nested) (trail : List String) (s : State) :
    (scriptOf inner trail s).1 =
      ((statements false inner.statement #[] trail s.settle).result.map fun body =>
          ⟨(body.map Tall.tree).toList, s.next.position⟩,
        (statements false inner.statement #[] trail s.settle).state) := by
  rw [← s.next_settle]
  change (Rule.bind (statements false inner.statement #[]) _ trail s.settle).1 = _
  unfold Rule.bind
  generalize statements false inner.statement #[] trail s.settle = o
  obtain ⟨⟨_ | body, s₁⟩, hbefore⟩ := o <;> rfl

theorem scriptOf_coupled (h : inner.Coupled C inner') :
    (scriptOf inner).Coupled C (fun s s' =>
      s' = ⟨s.statements.map (Stmt.moved C.place), C.place s.position⟩) (scriptOf inner') := by
  refine .peek_bind fun first => ?_
  refine (statements_coupled h false).bind fun body body' hbody => ?_
  refine .pure ?_
  rw [hbody.trees]
  rfl

/-- If all places stay the same, the same script is made. -/
theorem scriptOf_coupled_eq (hplace : C.place = id) (h : inner.Coupled C inner') :
    (scriptOf inner).Coupled C Eq (scriptOf inner') := by
  refine (scriptOf_coupled h).mono ?_
  rintro s s' rfl
  have hstatements : s.statements.map (Stmt.moved C.place) = s.statements :=
    map_eq_self fun t _ => by rw [hplace, t.moved_id]
  rw [hstatements, hplace]
  rfl

theorem script_coupled (C : Coupling) :
    script.Coupled C (fun s s' =>
      s' = ⟨s.statements.map (Stmt.moved C.place), C.place s.position⟩) script :=
  scriptOf_coupled (level_coupled C maxNesting)

theorem wholeExpression_coupled (C : Coupling) :
    wholeExpression.Coupled C (fun e e' => e' = e.moved C.place) wholeExpression := by
  refine (level_coupled C maxNesting).expression.bind fun e e' he => .require_bind fun _ => ?_
  exact .pure (congrArg Tall.tree he.eq)

end Rules

end StackScript.Grammar
