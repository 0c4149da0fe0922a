import StackScript.Proofs.Grammar.Filling

/-!
Filling the tables while a text is read ends in the tables of the trees. A rule that adds nodes
goes with the rule that makes trees: from any state both leave the same state behind, both fail
or neither, and what the first one hands on is the place of the tree that the second one makes.
That is proved once of each way in which rules are built and, by induction on the levels left to
open, of all rules of the grammar. Main statements: a script and an expression are numbered
while they are read.
-/

namespace StackScript

variable {α β γ δ : Type}

namespace Grammar

namespace Growing

theorem chain_stop {step : α → Token → Option (Growing α)} {a : α} (g : Growth)
    (trail : List String) {s : State} (h : s.ahead = [] ∨ step a s.next = none) :
    chain step a g trail s = (.succeed a s.settle (.settle s), g) := by
  rw [chain]
  split
  · rfl
  · rename_i hahead
    simp only [hahead, false_or] at h
    rw [h]

theorem chain_go {step : α → Token → Option (Growing α)} {a : α} {growing : Growing α}
    (g : Growth) (trail : List String) {s : State} (hahead : s.ahead ≠ [])
    (h : step a s.next = some growing) :
    chain step a g trail s = (of .take >>= fun _ => growing >>= chain step) g trail s := by
  have hgo : (of .take >>= fun _ => growing >>= chain step) g trail s =
      ((Growing.bind growing (chain step) g trail s.settle.drop).1.since (.drop s),
        (Growing.bind growing (chain step) g trail s.settle.drop).2) := rfl
  rw [chain, dif_neg hahead, hgo, Growing.bind]
  split
  · rename_i hnone
    rw [h] at hnone
    contradiction
  · rename_i growing' hgrowing
    obtain rfl : growing = growing' := by simpa [h] using hgrowing
    generalize growing g trail s.settle.drop = r
    obtain ⟨⟨⟨_ | b, s₁⟩, h₁, told⟩, g₁⟩ := r <;> rfl

end Growing

/-- What two rules leave behind goes together: the states are the same, the tables have only been
added to, and both have failed, or `P` holds of what they have made, of the tables and of the
state. -/
structure Together (P : α → β → Growth → State → Prop) (g g' : Growth) (r : Option α × State)
    (r' : Option β × State) : Prop where
  state_eq : r'.2 = r.2
  before : g.Before g'
  result : Option.Rel (fun a b => P a b g' r.2) r.1 r'.1

theorem Together.after {P : α → β → Growth → State → Prop} {g g₁ g' : Growth}
    {r : Option α × State} {r' : Option β × State} (hg : g.Before g₁)
    (h : Together P g₁ g' r r') : Together P g g' r r' :=
  ⟨h.state_eq, hg.trans h.before, h.result⟩

def FollowsAt (rule : Rule α) (growing : Growing β) (P : α → β → Growth → State → Prop)
    (g : Growth) (trail : List String) (s : State) : Prop :=
  Together P g (growing g trail s).2 (rule trail s).1 (growing g trail s).1.1

/-- A rule that fills the tables goes with another rule from all tables and states; `P` may speak
of the tables before as well. -/
def Follows (rule : Rule α) (growing : Growing β)
    (P : Growth → α → β → Growth → State → Prop) : Prop :=
  ∀ g trail s, FollowsAt rule growing (P g) g trail s

namespace FollowsAt

variable {rule : Rule α} {growing : Growing β} {P : α → β → Growth → State → Prop}
  {Q : γ → δ → Growth → State → Prop} {g₀ g : Growth} {trail : List String} {s : State}

theorem pure {a : α} {b : β} (h : P a b g s) :
    FollowsAt (Pure.pure a) (Pure.pure b) P g trail s := ⟨rfl, .refl g, .some h⟩

theorem fail (position : Position) (fault : Fault) (arguments : List String) :
    FollowsAt (Rule.fail position fault arguments : Rule α)
      (.of (Rule.fail position fault arguments) : Growing β) P g trail s :=
  ⟨rfl, .refl g, .none⟩

theorem tooDeep : FollowsAt (tooDeep : Rule α) (.of Grammar.tooDeep : Growing β) P g trail s :=
  ⟨rfl, .refl g, .none⟩

theorem within (name : String) (h : FollowsAt rule growing P g (name :: trail) s) :
    FollowsAt (rule.within name) (growing.within name) P g trail s := h

theorem mono {Q : α → β → Growth → State → Prop} (h : FollowsAt rule growing P g trail s)
    (hPQ : ∀ a b g s, P a b g s → Q a b g s) : FollowsAt rule growing Q g trail s := by
  unfold FollowsAt at h ⊢
  generalize (rule trail s).1 = r at h ⊢
  generalize (growing g trail s).1.1 = r' at h ⊢
  obtain ⟨result, s₁⟩ := r
  obtain ⟨result', s₁'⟩ := r'
  obtain ⟨heq, hg, hresult⟩ := h
  cases hresult with
  | none => exact ⟨heq, hg, .none⟩
  | some hP => exact ⟨heq, hg, .some (hPQ _ _ _ _ hP)⟩

theorem bind {f : α → Rule γ} {f' : β → Growing δ} (h : FollowsAt rule growing P g trail s)
    (hf : ∀ a b g₁ s₁, g.Before g₁ → s.Before s₁ → P a b g₁ s₁ →
      FollowsAt (f a) (f' b) Q g₁ trail s₁) :
    FollowsAt (rule >>= f) (growing >>= f') Q g trail s := by
  change FollowsAt (Rule.bind rule f) (Growing.bind growing f') Q g trail s
  unfold FollowsAt at h ⊢
  unfold Rule.bind Growing.bind
  generalize rule trail s = o at h ⊢
  generalize growing g trail s = o' at h ⊢
  obtain ⟨⟨result, s₁⟩, hs, told⟩ := o
  obtain ⟨⟨⟨result', s₁'⟩, hs', told'⟩, g₁⟩ := o'
  obtain ⟨heq, hg, hresult⟩ := h
  obtain rfl : s₁' = s₁ := heq
  cases hresult with
  | none => exact ⟨rfl, hg, .none⟩
  | some hP => exact .after hg (hf _ _ g₁ s₁' hg hs hP)

/-- Both go on with what a rule has made that adds nothing. -/
theorem of_bind {rule : Rule α} {f : α → Rule γ} {f' : α → Growing δ}
    (hf : ∀ a s₁, s.Before s₁ → FollowsAt (f a) (f' a) Q g trail s₁) :
    FollowsAt (rule >>= f) (.of rule >>= f') Q g trail s := by
  have h : FollowsAt rule (.of rule) (fun a b g₁ _ => b = a ∧ g₁ = g) g trail s := by
    refine ⟨rfl, .refl g, ?_⟩
    change Option.Rel _ (rule trail s).1.1 (rule trail s).1.1
    cases (rule trail s).1.1 with
    | none => exact .none
    | some a => exact .some ⟨rfl, rfl⟩
  refine h.bind fun a b g₁ s₁ _ hs hab => ?_
  obtain ⟨rfl, rfl⟩ := hab
  exact hf b s₁ hs

theorem look_bind {rule : Rule γ} {f : Growth → β} {f' : β → Growing δ}
    (h : FollowsAt rule (f' (f g)) Q g trail s) :
    FollowsAt rule (.look f >>= f') Q g trail s := h

/-- By induction on how many tokens are left. -/
theorem chain {step : α → Token → Option (Rule α)} {step' : β → Token → Option (Growing β)}
    (hlater : ∀ a b g s s', P a b g s → s.Before s' → P a b g s')
    (hstep : ∀ a b g t s, P a b g s →
      Option.Rel (fun rule growing => FollowsAt rule growing P g trail s) (step a t) (step' b t))
    {a : α} {b : β} (h : P a b g s) :
    FollowsAt (Rule.chain step a) (Growing.chain step' b) P g trail s := by
  induction hn : s.left using Nat.strongRecOn generalizing a b g s with
  | ind n ih =>
    have hround := hstep a b g s.next s.settle.drop (hlater _ _ _ _ _ h (.drop s))
    unfold FollowsAt
    by_cases hend : s.ahead = [] ∨ step a s.next = none
    · have hend' : s.ahead = [] ∨ step' b s.next = none := by
        refine hend.imp_right fun hnone => ?_
        rw [hnone] at hround
        generalize step' b s.next = next at hround
        cases hround
        rfl
      rw [Rule.chain_stop trail hend, Growing.chain_stop g trail hend']
      exact ⟨rfl, .refl g, .some (hlater _ _ _ _ _ h (.settle s))⟩
    · obtain ⟨hahead, hnone⟩ := not_or.1 hend
      obtain ⟨rule, hrule⟩ := Option.ne_none_iff_exists'.1 hnone
      obtain ⟨growing, hgrowing, hfollows⟩ : ∃ growing, step' b s.next = some growing ∧
          FollowsAt rule growing P g trail s.settle.drop := by
        rw [hrule] at hround
        generalize step' b s.next = next at hround
        cases hround with
        | some hfollows => exact ⟨_, rfl, hfollows⟩
      have hlt : s.settle.drop.left < n := by
        have hpos := s.left_pos hahead
        rw [State.left_drop, State.left_settle]
        omega
      have hrest : FollowsAt (rule >>= Rule.chain step) (growing >>= Growing.chain step') P g trail
          s.settle.drop := hfollows.bind fun a b g₁ s₁ _ hs hP =>
        ih _ (Nat.lt_of_le_of_lt hs.left_le hlt) hP rfl
      rw [Rule.chain_go trail hahead hrule, Growing.chain_go g trail hahead hgrowing]
      exact hrest

section Statements

variable {statement : Rule (Tall Stmt)} {growing : Growing Nat} {all : Array (Tall Stmt)}
  {slots : Array Nat}

/-- One more statement, or none if it is wrong. -/
theorem afterStatement (h : FollowsAt statement growing (MadeStmt g) g trail s)
    (hall : MadeStmts g₀ all slots g s) (inBlock : Bool) :
    let round := Grammar.afterStatement inBlock all (statement trail s)
    let round' := Grammar.afterStatement inBlock slots (growing g trail s).1
    round'.1.2 = round.1.2 ∧ g.Before (growing g trail s).2 ∧
      MadeStmts g₀ round.1.1 round'.1.1 (growing g trail s).2 round.1.2 := by
  unfold FollowsAt at h
  generalize statement trail s = o at h ⊢
  generalize growing g trail s = o' at h ⊢
  obtain ⟨⟨result, s₁⟩, hs, told⟩ := o
  obtain ⟨⟨⟨result', s₁'⟩, hs', told'⟩, g₁⟩ := o'
  obtain ⟨heq, hg, hresult⟩ := h
  obtain rfl : s₁' = s₁ := heq
  cases hresult with
  | some hmade => exact ⟨rfl, hg, hall.push hg hs hmade⟩
  | none =>
    have htold : s₁'.told = true := hs.told_iff.2 (.inr (told rfl))
    have hrecover := s₁'.before_recover inBlock
    exact ⟨rfl, hg, hall.skip hg (hrecover.told_iff.2 (.inl htold))⟩

/-- By induction on how many tokens are left. -/
theorem statements (h : Follows statement growing MadeStmt) (inBlock : Bool)
    (hall : MadeStmts g₀ all slots g s) :
    FollowsAt (Grammar.statements inBlock statement all)
      (Growing.statements inBlock growing slots) (MadeStmts g₀) g trail s := by
  induction hn : s.left using Nat.strongRecOn generalizing all slots g s with
  | ind n ih =>
    unfold FollowsAt
    rw [Grammar.statements, Growing.statements]
    split
    · exact ⟨rfl, .refl g, .some (hall.later (.settle s))⟩
    · obtain ⟨heq, hg, hround⟩ :=
        (h g trail s.settle).afterStatement (hall.later (.settle s)) inBlock
      dsimp only
      by_cases hlt :
          (Grammar.afterStatement inBlock all (statement trail s.settle)).1.2.left < s.left
      · rw [if_pos hlt, if_pos (by rwa [heq])]
        refine .after hg ?_
        dsimp only [Outcome.since]
        rw [heq]
        exact ih _ (hn ▸ hlt) hround rfl
      · rw [if_neg hlt, if_neg (by rwa [heq])]
        exact ⟨heq, hg, .some hround⟩

end Statements

section Add

variable {shape : ExprShape} {children : List Node} {position : Position} {childHeight : Nat}

theorem node {tree : Expr} (hnamed : g.Named children shape.children)
    (hheight : g.highest children = childHeight) (hposition : tree.position = position)
    (hnumber : s.told = false → tree.number g₀.table = g.table.addExpr shape position) :
    FollowsAt (Grammar.node tree childHeight position) (.addExpr shape children position)
      (fun e slot g s => MadeExpr g₀ e slot g s ∧ e.tree.position = position) g trail s := by
  unfold FollowsAt Grammar.node Growing.addExpr
  dsimp only
  rw [hheight]
  by_cases hhigh : maxHeight < childHeight + 1
  · rw [if_pos hhigh, if_pos hhigh]
    exact ⟨rfl, .refl g, .none⟩
  · rw [if_neg hhigh, if_neg hhigh]
    have hbefore := hheight ▸ Growth.before_addExpr hnamed position
    refine ⟨rfl, hbefore, .some ⟨⟨⟨?_, shape, ?_⟩, hnumber⟩, hposition⟩⟩
    · exact g.exprs_size ▸ Array.getElem?_push_size
    · rw [hposition]
      exact Array.getElem?_push_size

theorem addExpr {tree : Expr} (hnamed : g.Named children shape.children)
    (hheight : g.highest children = childHeight) (hposition : tree.position = position)
    (hnumber : s.told = false → tree.number g₀.table = g.table.addExpr shape position) :
    FollowsAt (Grammar.node tree childHeight position) (.addExpr shape children position)
      (MadeExpr g₀) g trail s :=
  (node hnamed hheight hposition hnumber).mono fun _ _ _ _ hmade => hmade.1

theorem addStmt {tree : Stmt} {shape : StmtShape} (hnamed : g.Named children shape.children)
    (hheight : g.highest children = childHeight)
    (hnumber : s.told = false → tree.number g₀.table = g.table.addStmt shape position) :
    FollowsAt (Grammar.node tree childHeight position) (.addStmt shape children position)
      (MadeStmt g₀) g trail s := by
  unfold FollowsAt Grammar.node Growing.addStmt
  dsimp only
  rw [hheight]
  by_cases hhigh : maxHeight < childHeight + 1
  · rw [if_pos hhigh, if_pos hhigh]
    exact ⟨rfl, .refl g, .none⟩
  · rw [if_neg hhigh, if_neg hhigh]
    have hbefore := hheight ▸ Growth.before_addStmt hnamed position
    refine ⟨rfl, hbefore, .some ⟨?_, hnumber⟩⟩
    exact g.stmts_size ▸ Array.getElem?_push_size

end Add

end FollowsAt

section Rules

theorem rankOperator_eq (rank : Nat) (kind : TokenKind) :
    rankOperator rank kind = (Connective.find? rank kind).map Connective.join := by
  match rank with
  | 0 | 1 | 2 | 3 | 4 | 5 | 6 | 7 | 8 => cases kind <;> rfl
  | _ + 9 => rfl

/-- The rules that may open inside one another, and those that fill the tables. -/
structure Nested.Grown (inner : Nested) (growers : Growers) : Prop where
  statement : Follows inner.statement growers.statement MadeStmt
  expression : Follows inner.expression growers.expression MadeExpr
  operand : Follows inner.operand growers.operand MadeExpr

theorem operators_follows (rank : Nat) {next : Rule (Tall Expr)} {growing : Growing Nat}
    (h : Follows next growing MadeExpr) :
    Follows (operators (rankOperator rank) next) (.operators rank growing) MadeExpr := by
  intro g₀ trail s
  refine (h g₀ trail s).bind fun first slot g₁ s₁ _ _ hfirst => ?_
  refine .chain (fun _ _ _ _ _ hmade hs => hmade.later hs) (fun left l g sign s hleft => ?_) hfirst
  rw [rankOperator_eq]
  cases Connective.find? rank sign.kind with
  | none => exact .none
  | some c =>
    refine .some ((h g trail s).bind fun right r g₁ s₁ hg hs hright => .addExpr ?_ ?_ ?_ ?_)
    · cases c <;> exact .expr (hleft.has.later hg) (.expr hright.has .nil)
    · rw [Growth.highest_two, (hleft.has.later hg).heightOf, hright.has.heightOf]
    · cases c <;> rfl
    · intro huntold
      have hfirst := hleft.number (hs.untold huntold)
      have hsecond := hright.number huntold
      cases c <;> simp only [Connective.join, Connective.shape, Expr.number, hfirst, hsecond]

theorem name_follows (t : Token) :
    Follows (node (.name t.lexeme t.position) 0 t.position)
      (.addExpr (.name t.lexeme) [] t.position) MadeExpr :=
  fun _ _ _ => .addExpr .nil rfl rfl fun _ => rfl

theorem literal_follows (value : Value) : Follows (literal value) (.literal value) MadeExpr :=
  fun _ _ _ => .of_bind fun _ _ _ => .addExpr .nil rfl rfl fun _ => rfl

variable {inner : Nested} {growers : Growers} (h : inner.Grown growers)

include h

theorem argumentList_follows (close : TokenKind) :
    Follows (argumentList inner close) (.argumentList growers close) MadeArguments := by
  intro g₀ trail _
  refine .within _ (.of_bind fun isClosed s₀ _ => ?_)
  cases isClosed with
  | true => exact .pure ⟨.nil, rfl, fun _ => rfl⟩
  | false =>
    refine (h.expression g₀ _ s₀).bind fun first slot g s hg hs hfirst => ?_
    refine .bind (P := MadeExprs g₀) (.chain (fun _ _ _ _ _ hmade hs => hmade.later hs)
      (fun before slots g token s hbefore => ?_) ?_) fun all slots g s _ _ hall => ?_
    · by_cases hcomma : token.kind = .comma
      · rw [if_pos hcomma, if_pos hcomma]
        refine .some ((h.expression g _ s).bind fun e slot g₁ s₁ hg hs he => .pure ?_)
        exact hbefore.push hg hs he
      · rw [if_neg hcomma, if_neg hcomma]
        exact .none
    · exact (MadeExprs.empty g₀ s₀).push hg hs hfirst
    · exact .of_bind fun _ s₁ hs => .pure (hall.later hs).arguments

theorem suffixes_follows {base : Tall Expr} {slot : Nat} {g₀ g : Growth} {trail : List String}
    {s : State} (hbase : MadeExpr g₀ base slot g s) :
    FollowsAt (suffixes inner base) (.suffixes growers slot) (MadeExpr g₀) g trail s := by
  -- Each round looks up the place of what it follows, which is that of the first one.
  refine .mono (P := fun callee slot g s =>
    MadeExpr g₀ callee slot g s ∧ callee.tree.position = base.tree.position)
    (.chain ?_ (fun callee slot g sign s hcallee => ?_) ⟨hbase, rfl⟩) fun _ _ _ _ hmade => hmade.1
  · exact fun _ _ _ _ _ hmade hs => ⟨hmade.1.later hs, hmade.2⟩
  · obtain ⟨hcallee, hposition⟩ := hcallee
    cases sign.kind
    case openParen | openBracket =>
      refine .some (.look_bind ?_)
      rw [hcallee.has.position, hposition]
      refine (argumentList_follows h _ g _ s).bind fun all slots g₁ s₁ hg hs hall => ?_
      refine .node (.expr (hcallee.has.later hg) hall.named) ?_ rfl fun huntold => ?_
      · rw [Growth.highest_cons, (hcallee.has.later hg).heightOf, hall.highest]
      · have hcallee := hcallee.number (hs.untold huntold)
        simp only [Expr.number, Expr.position, hcallee, hall.number huntold]
    case dot =>
      refine .some (.look_bind ?_)
      rw [hcallee.has.position, hposition]
      refine .of_bind fun name s₁ hs => ?_
      refine (name_follows name g trail s₁).bind fun child slot g₁ s₂ hg hs' hchild => ?_
      have hcalleeHas := hcallee.has.later hg
      refine .node (.expr hcalleeHas (.expr hchild.has .nil)) ?_ rfl fun huntold => ?_
      · rw [Growth.highest_two, hcalleeHas.heightOf, hchild.has.heightOf]
      · have hcallee := hcallee.number ((hs.trans hs').untold huntold)
        simp only [Expr.number, Expr.position, hcallee, hchild.number huntold]
    all_goals exact .none

theorem functionLiteral_follows :
    Follows (functionLiteral inner) (.functionLiteral growers) MadeExpr := by
  intro g₀ trail _
  refine .within _ (.of_bind fun keyword _ _ => .of_bind fun _ _ _ => .of_bind fun _ s₀ _ => ?_)
  refine (h.statement g₀ _ s₀).bind fun body slot g s _ _ hbody => ?_
  refine .addExpr (.stmt hbody.has .nil) ?_ rfl fun huntold => ?_
  · rw [Growth.highest_one, hbody.has.heightOf]
  · simp only [Expr.number, hbody.number huntold]

theorem parenthesized_follows (position : Position) :
    Follows (parenthesized inner position) (.parenthesized growers position) MadeExpr := by
  intro g₀ trail _
  refine .of_bind fun _ s₀ _ => (h.expression g₀ _ s₀).bind fun e slot g s _ _ he => ?_
  refine .of_bind fun close s₁ hs₁ => ?_
  by_cases hkind : close.kind = .closeParen
  · rw [if_neg fun hne => hne hkind, if_neg fun hne => hne hkind]
    refine .of_bind fun _ s₂ hs₂ => .addExpr (.expr he.has .nil) ?_ rfl fun huntold => ?_
    · rw [Growth.highest_one, he.has.heightOf]
    · simp only [Expr.number, he.number ((hs₁.trans hs₂).untold huntold)]
  · rw [if_pos hkind, if_pos hkind]
    exact .bind (P := fun _ _ _ _ => False) (.fail _ _ _) fun _ _ _ _ _ _ hnone => hnone.elim

theorem primary_follows : Follows (primary inner) (.primary growers) MadeExpr := by
  intro g₀ trail _
  refine .of_bind fun token s₀ _ => ?_
  cases token.kind
  case keywordTrue | keywordFalse | keywordNull => exact literal_follows _ g₀ trail s₀
  case int | number | string =>
    cases token.literal with
    | some value => exact literal_follows value g₀ trail s₀
    | none => exact .fail _ _ _
  case openParen => exact parenthesized_follows h _ g₀ trail s₀
  case identifier =>
    refine .of_bind fun name s₁ _ => ?_
    refine (name_follows name g₀ trail s₁).bind fun base slot g s _ _ hbase => ?_
    exact suffixes_follows h hbase
  case keywordFun =>
    refine (functionLiteral_follows h g₀ trail s₀).bind fun base slot g s _ _ hbase => ?_
    exact suffixes_follows h hbase
  all_goals exact .fail _ _ _

theorem unary_follows : Follows (unary inner) (.unary growers) MadeExpr := by
  intro g₀ trail _
  refine .of_bind fun token s₀ _ => ?_
  cases prefixOperator token.kind with
  | none => exact primary_follows h g₀ trail s₀
  | some op =>
    refine .of_bind fun _ s₁ _ => (h.operand g₀ _ s₁).bind fun operand slot g s _ _ hoperand => ?_
    refine .addExpr (.expr hoperand.has .nil) ?_ rfl fun huntold => ?_
    · rw [Growth.highest_one, hoperand.has.heightOf]
    · simp only [Expr.number, hoperand.number huntold]

theorem operands_follows (rank : Nat) :
    Follows (operands inner rank) (.operands growers rank) MadeExpr := by
  induction rank with
  | zero => exact unary_follows h
  | succ rank ih => exact operators_follows (rank + 1) ih

theorem block_follows : Follows (block inner) (.block growers) MadeStmt := by
  intro g₀ trail _
  refine .within _ (.of_bind fun opening s₀ _ => ?_)
  refine (FollowsAt.statements h.statement true (MadeStmts.empty g₀ s₀)).bind
    fun body slots g s _ _ hbody => .of_bind fun _ s₁ hs => ?_
  refine .addStmt (.stmts hbody.has) hbody.highest fun huntold => ?_
  rw [Stmt.number, hbody.number (hs.untold huntold)]
  dsimp only
  rw [Array.toList_map]

theorem declaration_follows : Follows (declaration inner) (.declaration growers) MadeStmt := by
  intro g₀ trail _
  refine .within _ (.of_bind fun keyword _ _ => .of_bind fun name _ _ => .of_bind fun _ s₀ _ => ?_)
  refine (h.expression g₀ _ s₀).bind fun value slot g s _ _ hvalue => .of_bind fun _ s₁ hs => ?_
  refine .addStmt (.expr hvalue.has .nil) ?_ fun huntold => ?_
  · rw [Growth.highest_one, hvalue.has.heightOf]
  · simp only [Stmt.number, hvalue.number (hs.untold huntold)]

theorem returnStatement_follows :
    Follows (returnStatement inner) (.returnStatement growers) MadeStmt := by
  intro g₀ trail _
  refine .within _ (.of_bind fun keyword _ _ => .of_bind fun isBare s₀ _ => ?_)
  cases isBare with
  | true =>
    rw [if_pos rfl, if_pos rfl]
    exact .addStmt .nil rfl fun _ => rfl
  | false =>
    refine (h.expression g₀ _ s₀).bind fun value slot g s _ _ hvalue => .of_bind fun _ s₁ hs => ?_
    refine .addStmt (.expr hvalue.has .nil) ?_ fun huntold => ?_
    · rw [Growth.highest_one, hvalue.has.heightOf]
    · simp only [Stmt.number, hvalue.number (hs.untold huntold)]

theorem condition_follows : Follows (condition inner) (.condition growers) MadeExpr := by
  intro g₀ trail _
  refine .of_bind fun _ s₀ _ => (h.expression g₀ _ s₀).bind fun value slot g s _ _ hvalue => ?_
  exact .of_bind fun _ s₁ hs => .pure (hvalue.later hs)

theorem ifStatement_follows : Follows (ifStatement inner) (.ifStatement growers) MadeStmt := by
  intro g₀ trail _
  refine .within _ (.of_bind fun keyword s₀ _ => ?_)
  refine (condition_follows h g₀ _ s₀).bind fun test t g₁ s₁ _ _ htest => ?_
  refine (h.statement g₁ _ s₁).bind fun body b g₂ s₂ hg₂ hs₂ hbody => ?_
  refine .of_bind fun hasElse s₃ hs₃ => ?_
  cases hasElse with
  | true =>
    refine (h.statement g₂ _ s₃).bind fun other o g₄ s₄ hg₄ hs₄ hother => ?_
    have htestHas := htest.has.later (hg₂.trans hg₄)
    have hbodyHas := hbody.has.later hg₄
    refine .addStmt (.expr htestHas (.stmt hbodyHas (.stmt hother.has .nil))) ?_ fun huntold => ?_
    · rw [Growth.highest_three, htestHas.heightOf, hbodyHas.heightOf, hother.has.heightOf]
    · have hbody := hbody.number ((hs₃.trans hs₄).untold huntold)
      have htest := htest.number ((hs₂.trans (hs₃.trans hs₄)).untold huntold)
      simp only [Stmt.number, htest, hbody, hother.number huntold]
  | false =>
    have htestHas := htest.has.later hg₂
    refine .addStmt (.expr htestHas (.stmt hbody.has .nil)) ?_ fun huntold => ?_
    · rw [Growth.highest_two, htestHas.heightOf, hbody.has.heightOf]
    · have htest := htest.number ((hs₂.trans hs₃).untold huntold)
      simp only [Stmt.number, htest, hbody.number (hs₃.untold huntold)]

theorem whileStatement_follows :
    Follows (whileStatement inner) (.whileStatement growers) MadeStmt := by
  intro g₀ trail _
  refine .within _ (.of_bind fun keyword s₀ _ => ?_)
  refine (condition_follows h g₀ _ s₀).bind fun test t g₁ s₁ _ _ htest => ?_
  refine (h.statement g₁ _ s₁).bind fun body b g₂ s₂ hg₂ hs₂ hbody => ?_
  have htestHas := htest.has.later hg₂
  refine .addStmt (.expr htestHas (.stmt hbody.has .nil)) ?_ fun huntold => ?_
  · rw [Growth.highest_two, htestHas.heightOf, hbody.has.heightOf]
  · simp only [Stmt.number, htest.number (hs₂.untold huntold), hbody.number huntold]

theorem expressionStatement_follows :
    Follows (expressionStatement inner) (.expressionStatement growers) MadeStmt := by
  intro g₀ trail _
  refine .within _ (.of_bind fun start s₀ _ => ?_)
  refine (h.expression g₀ _ s₀).bind fun value v g₁ s₁ _ _ hvalue => ?_
  refine .of_bind fun isAssignment s₂ hs₂ => ?_
  cases isAssignment with
  | true =>
    refine (h.expression g₁ _ s₂).bind fun source r g₃ s₃ hg₃ hs₃ hsource => ?_
    have hvalueHas := hvalue.has.later hg₃
    refine .of_bind fun _ s₄ hs₄ =>
      .addStmt (.expr hvalueHas (.expr hsource.has .nil)) ?_ fun huntold => ?_
    · rw [Growth.highest_two, hvalueHas.heightOf, hsource.has.heightOf]
    · have hvalue := hvalue.number ((hs₂.trans (hs₃.trans hs₄)).untold huntold)
      simp only [Stmt.number, hvalue, hsource.number (hs₄.untold huntold)]
  | false =>
    refine .of_bind fun _ s₃ hs₃ => .addStmt (.expr hvalue.has .nil) ?_ fun huntold => ?_
    · rw [Growth.highest_one, hvalue.has.heightOf]
    · simp only [Stmt.number, hvalue.number ((hs₂.trans hs₃).untold huntold)]

theorem statement_follows : Follows (statement inner) (.statement growers) MadeStmt := by
  intro g₀ trail _
  refine .within _ (.of_bind fun start s₀ _ => ?_)
  cases start.kind
  case semicolon => exact .of_bind fun _ _ _ => .addStmt .nil rfl fun _ => by rw [Stmt.number]
  case openBrace => exact block_follows h g₀ _ s₀
  case keywordVar => exact declaration_follows h g₀ _ s₀
  case keywordReturn => exact returnStatement_follows h g₀ _ s₀
  case keywordIf => exact ifStatement_follows h g₀ _ s₀
  case keywordWhile => exact whileStatement_follows h g₀ _ s₀
  case keywordFor | keywordElse => exact .fail _ _ _
  all_goals exact expressionStatement_follows h g₀ _ s₀

omit h in
theorem level_grown (n : Nat) : (level n).Grown (Growing.level n) := by
  induction n with
  | zero => exact ⟨fun _ _ _ => .tooDeep, fun _ _ _ => .tooDeep, fun _ _ _ => .tooDeep⟩
  | succ n ih =>
    exact ⟨statement_follows ih, operands_follows ih loosest, unary_follows ih⟩

end Rules

/-- The root comes about over statements of any height. -/
theorem script_follows :
    Follows script .script fun g s id g' st =>
      st.told = false → s.root.number g.table = (id, g'.table) := by
  intro g₀ trail _
  refine .of_bind fun first s₀ _ => ?_
  refine (FollowsAt.statements (level_grown maxNesting).statement false
    (MadeStmts.empty g₀ s₀)).bind fun body slots g s _ _ hbody => ?_
  refine ⟨rfl, Growth.before_addStmt (.stmts hbody.has) first.position, .some fun huntold => ?_⟩
  rw [Script.root, Stmt.number, hbody.number huntold]
  dsimp only
  rw [Array.toList_map]
  rfl

theorem wholeExpression_follows :
    Follows wholeExpression .wholeExpression fun g e id g' st =>
      st.told = false → e.number g.table = (id, g'.table) := by
  intro g₀ trail s₀
  refine ((level_grown maxNesting).expression g₀ trail s₀).bind fun e slot g s _ _ he => ?_
  exact .of_bind fun _ s₁ hs => .pure fun huntold => he.number (hs.untold huntold)

end Grammar

open Grammar

/-- Reading while tables are filled comes to the same as reading and then numbering: the same is
told, the same number is that of the whole, and the tables are the same, with the heights of the
nodes beside them. -/
structure Reading.FilledBy (reading : Reading α) (filled : Reading β × Growth)
    (number : α → β × NodeTable) : Prop where
  faults_eq : filled.1.faults = reading.faults
  result_eq : filled.1.result = reading.result.map fun a => (number a).1
  table_eq : ∀ a, reading.result = some a → filled.2.table = (number a).2
  records : filled.2.table.Fits → filled.2.table.Records filled.2.heightOf

theorem Reading.FilledBy.of_follows {rule : Rule α} {growing : Growing β}
    (number : NodeTable → α → β × NodeTable)
    (h : Follows rule growing fun g a b g' s => s.told = false → number g.table a = (b, g'.table))
    (tokens : TokenStream) :
    (run rule tokens).FilledBy (Growing.run growing tokens) (number {}) := by
  obtain ⟨heq, hbefore, hresult⟩ := h {} [] (.ofStream tokens)
  unfold run Growing.run Reading.ofOutcome Outcome.result Outcome.state
  generalize rule [] (.ofStream tokens) = o at heq hresult ⊢
  generalize growing {} [] (.ofStream tokens) = o' at heq hbefore hresult ⊢
  obtain ⟨⟨result, s⟩, _, _⟩ := o
  obtain ⟨⟨⟨result', s'⟩, _, _⟩, g⟩ := o'
  obtain rfl : s' = s := heq
  have hrecords := (hbefore.recorded Growth.recorded_empty).records
  cases htold : s'.told with
  | true => exact ⟨rfl, by simp [htold], by simp, hrecords⟩
  | false =>
    cases hresult with
    | none => exact ⟨rfl, by simp, by simp, hrecords⟩
    | some hnumber =>
      have hnumber := hnumber htold
      exact ⟨rfl, by simp [htold, hnumber], by simp [hnumber], hrecords⟩

/-- A script is numbered while it is read. -/
theorem Script.ofTokens_filledBy (tokens : TokenStream) :
    (Script.ofTokens tokens).FilledBy (Growing.run .script tokens) fun s =>
      (s.numbered.root, s.numbered.table) :=
  .of_follows (fun t (s : Script) => s.root.number t) script_follows tokens

theorem Expr.ofTokens_filledBy (tokens : TokenStream) :
    (Expr.ofTokens tokens).FilledBy (Growing.run .wholeExpression tokens) (Expr.number {}) :=
  .of_follows Expr.number wholeExpression_follows tokens

end StackScript
