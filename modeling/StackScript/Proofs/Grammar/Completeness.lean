import StackScript.Proofs.Grammar.Soundness

/-!
What derives is read. Where the grammar grows a phrase at its end, as with operators
of one rank, calls and commas, the rules go on with a chain instead. So a derivation
of such a phrase says that a chain which makes something of the tokens behind the
phrase makes the same of the phrase and those tokens together.
-/

namespace StackScript.Grammar

open Rule

def Tall.ofExpr (e : Expr) : Tall Expr := ⟨e, e.height⟩

def Tall.ofStmt (s : Stmt) : Tall Stmt := ⟨s, s.height⟩

/-- Signs that go on with a name or a function. -/
def startsSuffix : TokenKind → Bool
  | .openParen | .openBracket | .dot => true
  | _ => false

/-- An operand of this rank ends in front of this kind of token. -/
structure EndsOperand (rank : Nat) (kind : TokenKind) : Prop where
  suffix : startsSuffix kind = false
  looser : ∀ c : Connective, c.kind = kind → rank < c.rank
  other : kind ≠ .keywordElse

/-- How a chain of operators goes on. -/
def operatorStep (make? : TokenKind → Option (Expr → Expr → Position → Expr))
    (next : Rule (Tall Expr)) (left : Tall Expr) (token : Token) : Option (Rule (Tall Expr)) :=
  (make? token.kind).map fun make => do
    let right ← next
    node (make left.tree right.tree token.position) (max left.height right.height)
      token.position

/-- What is read behind the first part of an operand. -/
def operandTail (inner : Nested) : Nat → Tall Expr → Rule (Tall Expr)
  | 0, e => return e
  | rank + 1, e => chain (operatorStep (rankOperator (rank + 1)) (operands inner rank)) e

/-- How a chain of calls, indices and members goes on. -/
def suffixStep (inner : Nested) (position : Position) (callee : Tall Expr) (token : Token) :
    Option (Rule (Tall Expr)) :=
  match token.kind with
  | .openParen => some do
    let all ← argumentList inner .closeParen
    node (.call callee.tree all.tree position) (max callee.height all.height) position
  | .openBracket => some do
    let all ← argumentList inner .closeBracket
    node (.index callee.tree all.tree position) (max callee.height all.height) position
  | .dot => some do
    let name ← require .identifier
    let child ← node (Expr.name name.lexeme name.position) 0 name.position
    node (.member callee.tree child.tree position) (max callee.height child.height) position
  | _ => none

/-- How a chain of expressions with commas between them goes on. -/
def commaStep (inner : Nested) (before : Array (Tall Expr)) (token : Token) :
    Option (Rule (Array (Tall Expr))) :=
  if token.kind = .comma then some do
    let e ← inner.expression
    return before.push e
  else none

theorem argumentList_eq (inner : Nested) (close : TokenKind) :
    argumentList inner close = within "arguments" do
      if ← accept close then return ⟨[], 0⟩
      let first ← inner.expression
      let all ← chain (commaStep inner) #[first]
      let _ ← require close
      return ⟨(all.map Tall.tree).toList, all.foldl (fun h e => max h e.height) 0⟩ := rfl

/-- That a phrase is read as the grammar says, whatever stands behind it that could
not go on with it. -/
def Phrase.IsRead (n : Nat) (stop : Token) (ts : List Token) : Phrase → Prop
  | .statement s => s.height ≤ maxHeight → ∀ rest,
      (s.endsOpen = true → (rest.headD stop).kind ≠ .keywordElse) →
      (level n).statement.Gives stop (ts ++ rest) (.ofStmt s) rest
  | .statements ss => (∀ s ∈ ss, s.height ≤ maxHeight) → ∀ inBlock before (rest : List Token),
      endsStatements inBlock (rest.headD stop).kind = true →
      (Grammar.statements inBlock (level n).statement before).Gives stop (ts ++ rest)
        (before ++ (ss.map Tall.ofStmt).toArray) rest
  | .expression e => e.height ≤ maxHeight → ∀ rest, EndsOperand loosest (rest.headD stop).kind →
      (level n).expression.Gives stop (ts ++ rest) (.ofExpr e) rest
  | .operand rank e => e.height ≤ maxHeight → ∀ rest e' rest',
      EndsOperand (rank - 1) (rest.headD stop).kind →
      (operandTail (level n) rank (.ofExpr e)).Gives stop rest e' rest' →
      (operands (level n) rank).Gives stop (ts ++ rest) e' rest'
  | .callable e => e.height ≤ maxHeight → ∀ rest e' rest',
      (rest.headD stop).kind ≠ .keywordElse →
      (chain (suffixStep (level n) e.position) (.ofExpr e)).Gives stop rest e' rest' →
      (unary (level n)).Gives stop (ts ++ rest) e' rest'
  | .arguments es => exprsHeight es ≤ maxHeight → ∀ close closing rest,
      close = .closeParen ∨ close = .closeBracket → closing.kind = close →
      (argumentList (level n) close).Gives stop (ts ++ closing :: rest)
        ⟨es, exprsHeight es⟩ rest
  | .series es => exprsHeight es ≤ maxHeight → ∀ rest all rest',
      EndsOperand loosest (rest.headD stop).kind →
      (chain (commaStep (level n)) (es.map Tall.ofExpr).toArray).Gives stop rest all rest' →
      ((level n).expression >>= fun first => chain (commaStep (level n)) #[first]).Gives stop
        (ts ++ rest) all rest'

section Ends

theorem endsOperand_of_le {rank rank' : Nat} {kind : TokenKind} (h : EndsOperand rank' kind)
    (hle : rank ≤ rank') : EndsOperand rank kind :=
  { h with looser := fun c hc => Nat.lt_of_le_of_lt hle (h.looser c hc) }

theorem connective_ext {c c' : Connective} (h : c.kind = c'.kind) : c = c' := by
  obtain op | op := c <;> obtain op' | op' := c' <;> cases op <;> cases op' <;>
    first | rfl | cases h

theorem endsOperand_kind (c : Connective) : EndsOperand (c.rank - 1) c.kind := by
  refine ⟨?_, fun c' hc => ?_, ?_⟩
  · obtain op | op := c <;> cases op <;> rfl
  · rw [connective_ext hc]
    obtain op | op := c <;> cases op <;> decide
  · obtain op | op := c <;> cases op <;> decide

theorem rankOperator_none {rank : Nat} {kind : TokenKind} (h : EndsOperand rank kind) :
    rankOperator rank kind = none := by
  cases hop : rankOperator rank kind with
  | none => rfl
  | some make =>
    obtain ⟨c, hrank, hkind, -⟩ := exists_connective hop
    exact absurd (h.looser c hkind) (by rw [hrank]; exact Nat.lt_irrefl rank)

theorem suffixStep_none {inner : Nested} {position : Position} {e : Tall Expr} {t : Token}
    (h : startsSuffix t.kind = false) : suffixStep inner position e t = none := by
  unfold suffixStep
  split <;> simp_all [startsSuffix]

/-- Signs behind a whole expression. -/
theorem endsOperand_loosest {kind : TokenKind}
    (h : kind = .semicolon ∨ kind = .closeParen ∨ kind = .closeBracket ∨ kind = .comma ∨
      kind = .assign ∨ kind = .endOfStream) : EndsOperand loosest kind := by
  refine ⟨?_, fun c hc => ?_, ?_⟩
  · rcases h with rfl | rfl | rfl | rfl | rfl | rfl <;> rfl
  · subst hc
    obtain op | op := c <;> cases op <;> simp [Connective.kind] at h
  · rcases h with rfl | rfl | rfl | rfl | rfl | rfl <;> decide

end Ends

namespace Phrase.IsRead

variable {n : Nat} {stop : Token} {ts us vs : List Token} {e e' : Expr} {s s' : Stmt}

/-- An operand that ends in front of `rest`. -/
theorem operand_stop {rank : Nat} (h : IsRead n stop ts (.operand rank e))
    (he : e.height ≤ maxHeight) {rest : List Token}
    (hrest : EndsOperand rank (rest.headD stop).kind) :
    (operands (level n) rank).Gives stop (ts ++ rest) (.ofExpr e) rest := by
  refine h he rest _ _ (endsOperand_of_le hrest (Nat.sub_le rank 1)) ?_
  cases rank with
  | zero => exact Gives.pure
  | succ rank =>
    refine Gives.chain_stop ?_
    rw [operatorStep, rankOperator_none hrest]
    rfl

theorem expression (h : IsRead n stop ts (.operand loosest e)) :
    IsRead (n + 1) stop ts (.expression e) :=
  fun he _ hrest => h.operand_stop he hrest

/-- An expression that ends in front of `t`. -/
theorem expression_stop (h : IsRead n stop ts (.expression e)) (he : e.height ≤ maxHeight)
    {t : Token} (ht : EndsOperand loosest t.kind) (rest : List Token) :
    (level n).expression.Gives stop (ts ++ t :: rest) (.ofExpr e) (t :: rest) :=
  h he (t :: rest) ht

theorem tighter {rank : Nat} (h : IsRead n stop ts (.operand rank e)) :
    IsRead n stop ts (.operand (rank + 1) e) := by
  intro he rest e' rest' hrest htail
  exact (h.operand_stop he hrest).bind htail

theorem height_join {c : Connective} {l r : Expr} {position : Position} :
    (c.join l r position).height = max l.height r.height + 1 := by
  cases c <;> simp [Connective.join, Expr.height]

theorem connected {c : Connective} {sign : Token} {l r : Expr}
    (hl : IsRead n stop ts (.operand c.rank l)) (hs : sign.kind = c.kind)
    (hr : IsRead n stop us (.operand (c.rank - 1) r)) :
    IsRead n stop (ts ++ sign :: us) (.operand c.rank (c.join l r sign.position)) := by
  intro he rest e' rest' hrest htail
  rw [height_join] at he
  rw [List.append_assoc]
  have hends : EndsOperand (c.rank - 1) ((sign :: us ++ rest).headD stop).kind := by
    rw [List.cons_append, List.headD_cons, hs]
    exact endsOperand_kind c
  refine hl (by omega) _ _ _ hends ?_
  obtain ⟨rank, hrank⟩ : ∃ rank, c.rank = rank + 1 := by
    obtain op | op := c <;> cases op <;> exact ⟨_, rfl⟩
  rw [hrank] at hrest hr htail ⊢
  -- The sign and the right operand are the first round of the chain behind the left one.
  have hstep : operatorStep (rankOperator (rank + 1)) (operands (level n) rank) (.ofExpr l) sign =
      some (operands (level n) rank >>= fun right =>
        node (c.join l right.tree sign.position) (max l.height right.height) sign.position) := by
    rw [operatorStep, hs, ← hrank, rankOperator_kind]
    rfl
  refine Gives.chain_go hstep ?_ htail
  exact (hr.operand_stop (by omega) hrest).bind (Gives.node height_join (by rwa [height_join]))

/-- An operand with no connective outside parentheses. -/
theorem operand_zero
    (h : e.height ≤ maxHeight → ∀ rest, EndsOperand 0 (rest.headD stop).kind →
      (unary (level n)).Gives stop (ts ++ rest) (.ofExpr e) rest) :
    IsRead n stop ts (.operand 0 e) := by
  intro he rest e' rest' hrest htail
  obtain ⟨rfl, rfl⟩ := Gives.eq_of_pure htail
  exact h he rest' hrest

theorem prefixed {op : UnaryOp} {sign : Token} (hs : sign.kind = prefixKind op)
    (h : IsRead n stop ts (.operand 0 e)) :
    IsRead (n + 1) stop (sign :: ts) (.operand 0 (.unary op e sign.position)) := by
  refine operand_zero fun he rest hrest => ?_
  have hop : prefixOperator sign.kind = some op := by rw [hs]; cases op <;> rfl
  rw [Expr.height] at he
  refine Gives.peek.bind ?_
  rw [List.cons_append, List.headD_cons, hop]
  exact Gives.take.bind ((h.operand_stop (by omega) hrest).bind (Gives.node rfl he))

theorem prefixOperator_none {kind : TokenKind} (h : ∀ op, kind ≠ prefixKind op) :
    prefixOperator kind = none := by
  cases hop : prefixOperator kind with
  | none => rfl
  | some op => exact absurd (prefixKind_of_prefixOperator hop) (h op)

theorem unary_of_primary {t : Token} {rest : List Token} {e : Tall Expr}
    (hstart : ∀ op, t.kind ≠ prefixKind op)
    (h : (primary (level n)).Gives stop (t :: ts) e rest) :
    (unary (level n)).Gives stop (t :: ts) e rest := by
  refine Gives.peek.bind ?_
  rw [List.headD_cons, prefixOperator_none hstart]
  exact h

theorem constant {t : Token} {v : Value} (ht : constant? t = some v) :
    IsRead n stop [t] (.operand 0 (.literal v t.position)) := by
  refine operand_zero fun he rest hrest => ?_
  have hliteral : (literal v).Gives stop (t :: rest) (.ofExpr (.literal v t.position)) rest :=
    Gives.take.bind (Gives.node rfl he)
  have hprefix : ∀ op, t.kind ≠ prefixKind op := by
    intro op hop
    rw [constant?, hop] at ht
    cases op <;> contradiction
  refine unary_of_primary hprefix (Gives.peek.bind ?_)
  rw [List.headD_cons]
  unfold constant? at ht
  split at ht
  case h_7 => contradiction
  all_goals
    rename_i hkind
    simp only [hkind]
    first
      | (obtain rfl := Option.some.inj ht; exact hliteral)
      | (rw [ht]; exact hliteral)

theorem group {opening closing : Token} (ho : opening.kind = .openParen)
    (h : IsRead n stop ts (.expression e)) (hc : closing.kind = .closeParen) :
    IsRead n stop (opening :: ts ++ [closing]) (.operand 0 (.group e opening.position)) := by
  refine operand_zero fun he rest hrest => ?_
  rw [Expr.height] at he
  simp only [List.append_assoc, List.cons_append, List.nil_append]
  have hprefix : ∀ op, opening.kind ≠ prefixKind op := by rw [ho]; rintro (_ | _ | _) <;> decide
  refine unary_of_primary hprefix (Gives.peek.bind ?_)
  simp only [List.headD_cons, ho]
  have hends := endsOperand_loosest (.inr (.inl hc))
  refine Gives.take.bind ((h.expression_stop (by omega) hends rest).bind (Gives.peek.bind ?_))
  rw [List.headD_cons, if_neg (not_not_intro hc)]
  exact Gives.take.bind (Gives.node rfl he)

theorem called (h : IsRead n stop ts (.callable e)) : IsRead n stop ts (.operand 0 e) := by
  refine operand_zero fun he rest hrest => h he rest _ _ hrest.other (Gives.chain_stop ?_)
  exact suffixStep_none hrest.suffix

theorem name {t : Token} (ht : t.kind = .identifier) :
    IsRead n stop [t] (.callable (.name t.lexeme t.position)) := by
  intro he rest e' rest' hrest hchain
  have hprefix : ∀ op, t.kind ≠ prefixKind op := by rw [ht]; rintro (_ | _ | _) <;> decide
  refine unary_of_primary hprefix (Gives.peek.bind ?_)
  simp only [List.headD_cons, ht]
  exact Gives.take.bind ((Gives.node rfl he).bind hchain)

theorem function {word opening closing : Token} (hw : word.kind = .keywordFun)
    (ho : opening.kind = .openParen) (hc : closing.kind = .closeParen)
    (h : IsRead n stop ts (.statement s)) :
    IsRead n stop (word :: opening :: closing :: ts) (.callable (.function s word.position)) := by
  intro he rest e' rest' hrest hchain
  have hfunction : (functionLiteral (level n)).Gives stop
      (word :: opening :: closing :: ts ++ rest) (.ofExpr (.function s word.position)) rest := by
    rw [Expr.height] at he
    refine Gives.within ((Gives.require hw).bind ((Gives.require ho).bind ?_))
    refine (Gives.require hc).bind ((h (by omega) rest fun _ => hrest).bind ?_)
    exact Gives.node rfl he
  have hprefix : ∀ op, word.kind ≠ prefixKind op := by rw [hw]; rintro (_ | _ | _) <;> decide
  refine unary_of_primary hprefix (Gives.peek.bind ?_)
  simp only [List.headD_cons, hw]
  exact hfunction.bind hchain

theorem call {opening closing : Token} {es : List Expr} (hcallee : IsRead n stop ts (.callable e))
    (ho : opening.kind = .openParen) (harguments : IsRead n stop us (.arguments es))
    (hc : closing.kind = .closeParen) :
    IsRead n stop (ts ++ opening :: us ++ [closing]) (.callable (.call e es e.position)) := by
  intro he rest e' rest' hrest hchain
  rw [Expr.height] at he
  simp only [List.append_assoc, List.cons_append, List.nil_append]
  refine hcallee (by omega) _ _ _ (by rw [List.headD_cons, ho]; decide) ?_
  have hstep : suffixStep (level n) e.position (.ofExpr e) opening =
      some (argumentList (level n) .closeParen >>= fun all =>
        node (.call e all.tree e.position) (max e.height all.height) e.position) := by
    simp only [suffixStep, ho]
    rfl
  refine Gives.chain_go hstep ?_ hchain
  refine (harguments (by omega) _ _ _ (.inl rfl) hc).bind (Gives.node ?_ he)
  rw [Expr.height]

theorem index {opening closing : Token} {es : List Expr} (hcallee : IsRead n stop ts (.callable e))
    (ho : opening.kind = .openBracket) (harguments : IsRead n stop us (.arguments es))
    (hc : closing.kind = .closeBracket) :
    IsRead n stop (ts ++ opening :: us ++ [closing]) (.callable (.index e es e.position)) := by
  intro he rest e' rest' hrest hchain
  rw [Expr.height] at he
  simp only [List.append_assoc, List.cons_append, List.nil_append]
  refine hcallee (by omega) _ _ _ (by rw [List.headD_cons, ho]; decide) ?_
  have hstep : suffixStep (level n) e.position (.ofExpr e) opening =
      some (argumentList (level n) .closeBracket >>= fun all =>
        node (.index e all.tree e.position) (max e.height all.height) e.position) := by
    simp only [suffixStep, ho]
    rfl
  refine Gives.chain_go hstep ?_ hchain
  refine (harguments (by omega) _ _ _ (.inr rfl) hc).bind (Gives.node ?_ he)
  rw [Expr.height]

theorem member {dot name : Token} (hparent : IsRead n stop ts (.callable e))
    (hd : dot.kind = .dot) (hn : name.kind = .identifier) :
    IsRead n stop (ts ++ [dot, name])
      (.callable (.member e (.name name.lexeme name.position) e.position)) := by
  intro he rest e' rest' hrest hchain
  rw [Expr.height] at he
  simp only [List.append_assoc, List.cons_append, List.nil_append]
  refine hparent (by omega) _ _ _ (by rw [List.headD_cons, hd]; decide) ?_
  have hstep : suffixStep (level n) e.position (.ofExpr e) dot =
      some (require .identifier >>= fun name =>
        node (Expr.name name.lexeme name.position) 0 name.position >>= fun child =>
          node (.member e child.tree e.position) (max e.height child.height) e.position) := by
    simp only [suffixStep, hd]
    rfl
  refine Gives.chain_go hstep ((Gives.require hn).bind ?_) hchain
  refine (Gives.node rfl (by decide)).bind (Gives.node ?_ he)
  simp [Expr.height]

theorem noArguments : IsRead n stop [] (.arguments []) := by
  intro _ close closing rest _ hc
  refine Gives.within ((Gives.accept hc).bind ?_)
  exact Gives.pure

theorem one (h : IsRead n stop ts (.expression e)) : IsRead n stop ts (.series [e]) := by
  intro he rest all rest' hrest hchain
  rw [exprsHeight, exprsHeight] at he
  exact (h (by omega) rest hrest).bind hchain

theorem exprsHeight_append (es : List Expr) (e : Expr) :
    exprsHeight (es ++ [e]) = max (exprsHeight es) e.height := by
  induction es with
  | nil => simp [exprsHeight]
  | cons e' es ih =>
    rw [List.cons_append, exprsHeight, exprsHeight, ih]
    omega

theorem more {comma : Token} {es : List Expr} (hs : IsRead n stop ts (.series es))
    (hc : comma.kind = .comma) (he : IsRead n stop us (.expression e)) :
    IsRead n stop (ts ++ comma :: us) (.series (es ++ [e])) := by
  intro hheight rest all rest' hrest hchain
  rw [exprsHeight_append] at hheight
  rw [List.append_assoc, List.cons_append]
  refine hs (by omega) _ _ _ (endsOperand_loosest (.inr (.inr (.inr (.inl hc))))) ?_
  have hstep : commaStep (level n) (es.map Tall.ofExpr).toArray comma =
      some ((level n).expression >>= fun e => Pure.pure ((es.map Tall.ofExpr).toArray.push e)) := by
    rw [commaStep, if_pos hc]
  refine Gives.chain_go hstep ((he (by omega) rest hrest).bind Gives.pure) ?_
  simpa using hchain

theorem someArguments {es : List Expr} (hs : Derives n ts (.series es))
    (h : IsRead n stop ts (.series es)) : IsRead n stop ts (.arguments es) := by
  intro he close closing rest hclose hc
  have hends : EndsOperand loosest closing.kind := by
    rcases hclose with rfl | rfl
    · exact endsOperand_loosest (.inr (.inl hc))
    · exact endsOperand_loosest (.inr (.inr (.inl hc)))
  rw [argumentList_eq]
  refine Gives.within ((Gives.accept_not ?_).bind ?_)
  · obtain ⟨t, us, rfl, ht⟩ := hs.starts rfl
    intro heq
    rw [List.cons_append, List.headD_cons] at heq
    rw [Phrase.starts, heq] at ht
    rcases hclose with rfl | rfl <;> contradiction
  · refine Gives.assoc ((h he (closing :: rest) _ _ hends (Gives.chain_stop ?_)).bind ?_)
    · rw [commaStep, if_neg]
      rw [List.headD_cons, hc]
      rcases hclose with rfl | rfl <;> decide
    · refine (Gives.require hc).bind ?_
      have hheight := foldl_height_exprs (es.map Tall.ofExpr) (by simp [Tall.ofExpr])
      have htrees : (es.map Tall.ofExpr).map Tall.tree = es := by
        rw [List.map_map]
        exact List.map_id es
      rw [htrees] at hheight
      simp only [List.map_toArray, htrees, List.size_toArray, List.foldl_toArray', hheight]
      exact Gives.pure

theorem empty {t : Token} (ht : t.kind = .semicolon) :
    IsRead (n + 1) stop [t] (.statement (.empty t.position)) := by
  intro he rest _
  refine Gives.within (Gives.peek.bind ?_)
  simp only [List.cons_append, List.headD_cons, ht]
  exact Gives.take.bind (Gives.node rfl he)

theorem stmts_trees (ss : List Stmt) : (ss.map Tall.ofStmt).map Tall.tree = ss := by
  rw [List.map_map]
  exact List.map_id ss

theorem height_le_of_mem {ss : List Stmt} {s : Stmt} (h : s ∈ ss) : s.height ≤ stmtsHeight ss := by
  induction ss with
  | nil => contradiction
  | cons s' ss ih =>
    rw [stmtsHeight]
    rcases List.mem_cons.1 h with rfl | hmem
    · omega
    · have := ih hmem
      omega

theorem block {opening closing : Token} {ss : List Stmt} (ho : opening.kind = .openBrace)
    (h : IsRead n stop ts (.statements ss)) (hc : closing.kind = .closeBrace) :
    IsRead (n + 1) stop (opening :: ts ++ [closing])
      (.statement (.block ss opening.position)) := by
  intro he rest _
  rw [Stmt.height] at he
  simp only [List.append_assoc, List.cons_append, List.nil_append]
  refine Gives.within (Gives.peek.bind ?_)
  simp only [List.headD_cons, ho]
  refine Gives.within ((Gives.require ho).bind ?_)
  have hss : ∀ s ∈ ss, s.height ≤ maxHeight := by
    intro s hs
    have := height_le_of_mem hs
    omega
  refine (h hss true #[] (closing :: rest) (by rw [List.headD_cons, hc]; rfl)).bind ?_
  refine (Gives.require hc).bind ?_
  have hheight := foldl_height_stmts (ss.map Tall.ofStmt) (by simp [Tall.ofStmt])
  rw [stmts_trees] at hheight
  simp only [Array.empty_append, List.map_toArray, stmts_trees, List.size_toArray,
    List.foldl_toArray', hheight]
  exact Gives.node rfl he

theorem declare {var name sign last : Token} (hv : var.kind = .keywordVar)
    (hn : name.kind = .identifier) (hs : sign.kind = .assign)
    (h : IsRead n stop ts (.expression e)) (ht : last.kind = .semicolon) :
    IsRead (n + 1) stop (var :: name :: sign :: ts ++ [last])
      (.statement (.declare name.lexeme e var.position)) := by
  intro he rest _
  rw [Stmt.height] at he
  simp only [List.append_assoc, List.cons_append, List.nil_append]
  refine Gives.within (Gives.peek.bind ?_)
  simp only [List.headD_cons, hv]
  refine Gives.within ((Gives.require hv).bind ((Gives.require hn).bind ?_))
  have hends := endsOperand_loosest (.inl ht)
  refine (Gives.require hs).bind ((h.expression_stop (by omega) hends rest).bind ?_)
  exact (Gives.require ht).bind (Gives.node rfl he)

theorem returnNull {word last : Token} (hw : word.kind = .keywordReturn)
    (ht : last.kind = .semicolon) :
    IsRead (n + 1) stop [word, last] (.statement (.returnNull word.position)) := by
  intro he rest _
  simp only [List.cons_append, List.nil_append]
  refine Gives.within (Gives.peek.bind ?_)
  simp only [List.headD_cons, hw]
  refine Gives.within ((Gives.require hw).bind ((Gives.accept ht).bind ?_))
  rw [if_pos rfl]
  exact Gives.node rfl he

theorem returnValue {word last : Token} (hw : word.kind = .keywordReturn)
    (hd : Derives n ts (.expression e)) (h : IsRead n stop ts (.expression e))
    (ht : last.kind = .semicolon) :
    IsRead (n + 1) stop (word :: ts ++ [last]) (.statement (.returnValue e word.position)) := by
  intro he rest _
  rw [Stmt.height] at he
  obtain ⟨t, us, rfl, hstart⟩ := hd.starts rfl
  have hexpression := h.expression_stop (by omega) (endsOperand_loosest (.inl ht)) rest
  simp only [List.append_assoc, List.cons_append, List.nil_append] at hexpression ⊢
  refine Gives.within (Gives.peek.bind ?_)
  simp only [List.headD_cons, hw]
  refine Gives.within ((Gives.require hw).bind ((Gives.accept_not ?_).bind ?_))
  · intro hsemicolon
    rw [List.headD_cons] at hsemicolon
    rw [Phrase.starts, hsemicolon] at hstart
    contradiction
  · refine hexpression.bind ((Gives.require ht).bind ?_)
    exact Gives.node rfl he

theorem condition {opening closing : Token} (ho : opening.kind = .openParen)
    (h : IsRead n stop ts (.expression e)) (he : e.height ≤ maxHeight)
    (hc : closing.kind = .closeParen) (rest : List Token) :
    (condition (level n)).Gives stop (opening :: (ts ++ closing :: rest)) (.ofExpr e) rest := by
  have hends := endsOperand_loosest (.inr (.inl hc))
  refine (Gives.require ho).bind ((h.expression_stop he hends rest).bind ?_)
  exact (Gives.require hc).bind Gives.pure

theorem ifThen {word opening closing : Token} (hw : word.kind = .keywordIf)
    (ho : opening.kind = .openParen) (ht : IsRead n stop ts (.expression e))
    (hc : closing.kind = .closeParen) (hb : IsRead n stop us (.statement s)) :
    IsRead (n + 1) stop (word :: opening :: ts ++ closing :: us)
      (.statement (.ifThen e s word.position)) := by
  intro he rest hrest
  rw [Stmt.height] at he
  simp only [List.append_assoc, List.cons_append]
  refine Gives.within (Gives.peek.bind ?_)
  simp only [List.headD_cons, hw]
  refine Gives.within ((Gives.require hw).bind ?_)
  refine (ht.condition ho (by omega) hc (us ++ rest)).bind ?_
  refine (hb (by omega) rest fun _ => hrest rfl).bind ((Gives.accept_not (hrest rfl)).bind ?_)
  exact Gives.node rfl he

theorem ifElse {word opening closing other : Token} (hw : word.kind = .keywordIf)
    (ho : opening.kind = .openParen) (ht : IsRead n stop ts (.expression e))
    (hc : closing.kind = .closeParen) (hb : IsRead n stop us (.statement s))
    (hclosed : s.endsOpen = false) (hl : other.kind = .keywordElse)
    (hother : IsRead n stop vs (.statement s')) :
    IsRead (n + 1) stop (word :: opening :: ts ++ closing :: us ++ other :: vs)
      (.statement (.ifElse e s s' word.position)) := by
  intro he rest hrest
  rw [Stmt.height] at he
  simp only [List.append_assoc, List.cons_append]
  refine Gives.within (Gives.peek.bind ?_)
  simp only [List.headD_cons, hw]
  refine Gives.within ((Gives.require hw).bind ?_)
  refine (ht.condition ho (by omega) hc (us ++ other :: (vs ++ rest))).bind ?_
  refine (hb (by omega) _ fun hopen => ?_).bind ((Gives.accept hl).bind ?_)
  · rw [hclosed] at hopen
    contradiction
  · exact (hother (by omega) rest hrest).bind (Gives.node rfl he)

theorem whileDo {word opening closing : Token} (hw : word.kind = .keywordWhile)
    (ho : opening.kind = .openParen) (ht : IsRead n stop ts (.expression e))
    (hc : closing.kind = .closeParen) (hb : IsRead n stop us (.statement s)) :
    IsRead (n + 1) stop (word :: opening :: ts ++ closing :: us)
      (.statement (.whileDo e s word.position)) := by
  intro he rest hrest
  rw [Stmt.height] at he
  simp only [List.append_assoc, List.cons_append]
  refine Gives.within (Gives.peek.bind ?_)
  simp only [List.headD_cons, hw]
  refine Gives.within ((Gives.require hw).bind ?_)
  refine (ht.condition ho (by omega) hc (us ++ rest)).bind ?_
  exact (hb (by omega) rest hrest).bind (Gives.node rfl he)

theorem statement_of_expression {t : Token} {s : Tall Stmt} {rest : List Token}
    (ht : startsExpression t.kind = true)
    (h : (expressionStatement (level n)).Gives stop (t :: ts) s rest) :
    (level (n + 1)).statement.Gives stop (t :: ts) s rest := by
  refine Gives.within (Gives.peek.bind ?_)
  rw [List.headD_cons]
  cases hkind : t.kind <;> rw [hkind] at ht <;> first | exact h | contradiction

theorem value {first last : Token} (hd : Derives n (first :: ts) (.expression e))
    (h : IsRead n stop (first :: ts) (.expression e)) (ht : last.kind = .semicolon) :
    IsRead (n + 1) stop (first :: ts ++ [last]) (.statement (.expression e first.position)) := by
  intro he rest _
  rw [Stmt.height] at he
  obtain ⟨t, us, heq, hstart⟩ := hd.starts rfl
  obtain ⟨rfl, rfl⟩ := List.cons.inj heq
  have hexpression := h.expression_stop (by omega) (endsOperand_loosest (.inl ht)) rest
  simp only [List.append_assoc, List.cons_append, List.nil_append] at hexpression ⊢
  refine statement_of_expression hstart (Gives.within (Gives.peek.bind ?_))
  refine hexpression.bind ((Gives.accept_not ?_).bind ((Gives.require ht).bind ?_))
  · rw [List.headD_cons, ht]
    decide
  · exact Gives.node rfl he

theorem assign {first sign last : Token} (hd : Derives n (first :: ts) (.expression e))
    (h : IsRead n stop (first :: ts) (.expression e)) (hs : sign.kind = .assign)
    (h' : IsRead n stop us (.expression e')) (ht : last.kind = .semicolon) :
    IsRead (n + 1) stop (first :: ts ++ sign :: us ++ [last])
      (.statement (.assign e e' first.position)) := by
  intro he rest _
  rw [Stmt.height] at he
  obtain ⟨t, us', heq, hstart⟩ := hd.starts rfl
  obtain ⟨rfl, rfl⟩ := List.cons.inj heq
  have hsign := endsOperand_loosest (.inr (.inr (.inr (.inr (.inl hs)))))
  have htarget := h.expression_stop (by omega) hsign (us ++ last :: rest)
  have hsource := h'.expression_stop (by omega) (endsOperand_loosest (.inl ht)) rest
  simp only [List.append_assoc, List.cons_append, List.nil_append] at htarget ⊢
  refine statement_of_expression hstart (Gives.within (Gives.peek.bind ?_))
  refine htarget.bind ((Gives.accept hs).bind (hsource.bind ((Gives.require ht).bind ?_)))
  exact Gives.node rfl he

theorem none : IsRead n stop [] (.statements []) := by
  intro _ inBlock before rest hrest
  simpa using Gives.statements_end hrest

/-- Neither a statement nor the end of statements begins with `else`. -/
theorem head_ne_else {inBlock : Bool} {ss : List Stmt} (h : Derives n ts (.statements ss))
    {rest : List Token} (hrest : endsStatements inBlock (rest.headD stop).kind = true) :
    ((ts ++ rest).headD stop).kind ≠ .keywordElse := by
  intro helse
  cases h with
  | none =>
    rw [List.nil_append] at helse
    rw [helse] at hrest
    contradiction
  | cons head tail =>
    obtain ⟨t, us, rfl, hstart⟩ := head.starts rfl
    rw [List.cons_append, List.cons_append, List.headD_cons] at helse
    rw [Phrase.starts, helse] at hstart
    contradiction

theorem cons {ss : List Stmt} (hd : Derives n ts (.statement s))
    (h : IsRead n stop ts (.statement s)) (hds : Derives n us (.statements ss))
    (hs : IsRead n stop us (.statements ss)) :
    IsRead n stop (ts ++ us) (.statements (s :: ss)) := by
  intro he inBlock before rest hrest
  obtain ⟨hes, hess⟩ := List.forall_mem_cons.1 he
  obtain ⟨t, ts, rfl, hstart⟩ := hd.starts rfl
  have hone := h hes (us ++ rest) fun _ => head_ne_else hds hrest
  have hmore := hs hess inBlock (before.push (.ofStmt s)) rest hrest
  have hends : endsStatements inBlock t.kind = false := by
    cases hkind : t.kind <;> rw [hkind] at hstart <;> first | rfl | contradiction
  rw [List.append_assoc]
  simpa using Gives.statements_go hends hone hmore

end Phrase.IsRead

/-- What derives is read. -/
theorem Derives.isRead {n : Nat} {ts : List Token} {p : Phrase} (h : Derives n ts p)
    (stop : Token) : p.IsRead n stop ts := by
  induction h with
  | empty ht => exact .empty ht
  | block ho _ hc ih => exact .block ho ih hc
  | declare hv hn hs _ ht ih => exact .declare hv hn hs ih ht
  | returnNull hw ht => exact .returnNull hw ht
  | returnValue hw hd ht ih => exact .returnValue hw hd ih ht
  | ifThen hw ho _ hc _ iht ihb => exact .ifThen hw ho iht hc ihb
  | ifElse hw ho _ hc _ hclosed hl _ iht ihb ihe =>
    exact .ifElse hw ho iht hc ihb hclosed hl ihe
  | whileDo hw ho _ hc _ iht ihb => exact .whileDo hw ho iht hc ihb
  | value hd ht ih => exact .value hd ih ht
  | assign hd hs _ ht ih ih' => exact .assign hd ih hs ih' ht
  | none => exact .none
  | cons hd hds ih ihs => exact .cons hd ih hds ihs
  | expression _ ih => exact .expression ih
  | tighter _ ih => exact .tighter ih
  | connected _ hs _ ihl ihr => exact .connected ihl hs ihr
  | prefixed hs _ ih => exact .prefixed hs ih
  | constant ht => exact .constant ht
  | group ho _ hc ih => exact .group ho ih hc
  | called _ ih => exact .called ih
  | name ht => exact .name ht
  | function hw ho hc _ ih => exact .function hw ho hc ih
  | call _ ho _ hc ih ihs => exact .call ih ho ihs hc
  | index _ ho _ hc ih ihs => exact .index ih ho ihs hc
  | member _ hd hn ih => exact .member ih hd hn
  | noArguments => exact .noArguments
  | someArguments hd ih => exact .someArguments hd ih
  | one _ ih => exact .one ih
  | more _ hc _ ihs ih => exact .more ihs hc ih

theorem script_gives {ts : List Token} {ss : List Stmt} {stop : Token}
    (h : Derives maxNesting ts (.statements ss)) (hheight : ∀ s ∈ ss, s.height ≤ maxHeight)
    (hstop : stop.kind = .endOfStream) :
    script.Gives stop ts ⟨ss, (ts.headD stop).position⟩ [] := by
  refine Gives.peek.bind ?_
  have hread := h.isRead stop hheight false #[] [] (by rw [List.headD_nil, hstop]; rfl)
  rw [List.append_nil, Array.empty_append] at hread
  refine hread.bind ?_
  simp only [List.map_toArray, Phrase.IsRead.stmts_trees]
  exact Gives.pure

theorem wholeExpression_gives {ts : List Token} {e : Expr} {stop : Token}
    (h : Derives maxNesting ts (.expression e)) (hheight : e.height ≤ maxHeight)
    (hstop : stop.kind = .endOfStream) : wholeExpression.Gives stop ts e [] := by
  have hends := endsOperand_loosest (.inr (.inr (.inr (.inr (.inr hstop)))))
  have hread := h.isRead stop hheight [] hends
  rw [List.append_nil] at hread
  have hend : (require .endOfStream).Gives stop [] stop [] := by
    refine Gives.peek.bind ?_
    rw [List.headD_nil, if_pos hstop]
    exact Gives.take_end
  exact hread.bind (hend.bind Gives.pure)

end StackScript.Grammar
