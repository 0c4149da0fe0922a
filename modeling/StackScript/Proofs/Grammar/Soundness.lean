import StackScript.Grammar.Script
import StackScript.Proofs.Grammar.Productions
import StackScript.Proofs.Grammar.Quiet

/-!
What is read spells a derivation. Each rule that ends with nothing told has taken
tokens that derive the tree it made, and the height that it kept beside the tree is
that of the tree. The rules with `n` levels left to open are treated by induction on
`n`, each from the three rules one level further in.
-/

namespace StackScript

/-- The height kept beside a tree is its own, and small enough. -/
structure Grammar.Tall.Fits {α : Type} (height : α → Nat) (t : Grammar.Tall α) : Prop where
  height_eq : t.height = height t.tree
  height_le : t.height ≤ Grammar.maxHeight

namespace Grammar

open Rule

/-- The operators of one rank. -/
def rankOperator : Nat → TokenKind → Option (Expr → Expr → Position → Expr)
  | 1 => productOperator
  | 2 => sumOperator
  | 3 => orderOperator
  | 4 => equalityOperator
  | 5 => bitAndOperator
  | 6 => bitOrOperator
  | 7 => andOperator
  | 8 => orOperator
  | _ => fun _ => none

/-- Operands of one rank. -/
def operands (inner : Nested) : Nat → Rule (Tall Expr)
  | 0 => unary inner
  | rank + 1 => operators (rankOperator (rank + 1)) (operands inner rank)

theorem expression_eq_operands (inner : Nested) : expression inner = operands inner loosest :=
  rfl

theorem rankOperator_kind (c : Connective) : rankOperator c.rank c.kind = some c.join := by
  obtain op | op := c <;> cases op <;> rfl

theorem exists_connective {rank : Nat} {kind : TokenKind}
    {make : Expr → Expr → Position → Expr} (h : rankOperator rank kind = some make) :
    ∃ c : Connective, c.rank = rank ∧ c.kind = kind ∧ c.join = make := by
  unfold rankOperator at h
  split at h
  case h_9 => contradiction
  all_goals
    first
      | unfold productOperator at h
      | unfold sumOperator at h
      | unfold orderOperator at h
      | unfold equalityOperator at h
      | unfold bitAndOperator at h
      | unfold bitOrOperator at h
      | unfold andOperator at h
      | unfold orOperator at h
    split at h
    all_goals first
      | contradiction
      | exact ⟨.binary _, rfl, rfl, Option.some.inj h⟩
      | exact ⟨.logical _, rfl, rfl, Option.some.inj h⟩

theorem prefixKind_of_prefixOperator {kind : TokenKind} {op : UnaryOp}
    (h : prefixOperator kind = some op) : kind = prefixKind op := by
  unfold prefixOperator at h
  split at h <;> cases h <;> rfl

section Heights

theorem foldl_max_eq {α : Type} (f : α → Nat) (start : Nat) (all : List α) :
    all.foldl (fun h a => max h (f a)) start =
      max start (all.foldl (fun h a => max h (f a)) 0) := by
  induction all generalizing start with
  | nil => simp
  | cons a all ih =>
    rw [List.foldl_cons, ih, List.foldl_cons, ih (max 0 (f a))]
    omega

theorem foldl_height_exprs (all : List (Tall Expr))
    (h : ∀ e ∈ all, e.height = e.tree.height) :
    all.foldl (fun h e => max h e.height) 0 = exprsHeight (all.map Tall.tree) := by
  induction all with
  | nil => rfl
  | cons e all ih =>
    have he := h e List.mem_cons_self
    rw [List.foldl_cons, foldl_max_eq, ih fun e' he' => h e' (List.mem_cons_of_mem _ he')]
    rw [List.map_cons, exprsHeight, he, Nat.zero_max]

theorem foldl_height_stmts (all : List (Tall Stmt))
    (h : ∀ s ∈ all, s.height = s.tree.height) :
    all.foldl (fun h s => max h s.height) 0 = stmtsHeight (all.map Tall.tree) := by
  induction all with
  | nil => rfl
  | cons s all ih =>
    have hs := h s List.mem_cons_self
    rw [List.foldl_cons, foldl_max_eq, ih fun s' hs' => h s' (List.mem_cons_of_mem _ hs')]
    rw [List.map_cons, stmtsHeight, hs, Nat.zero_max]

end Heights

/-- What is known of an operand that has been read. -/
def OperandRead (n rank : Nat) (ts : List Token) (e : Tall Expr) (_ : Token) : Prop :=
  Derives n ts (.operand rank e.tree) ∧ e.Fits Expr.height

def ExpressionRead (n : Nat) (ts : List Token) (e : Tall Expr) (_ : Token) : Prop :=
  Derives n ts (.expression e.tree) ∧ e.Fits Expr.height

def CallableRead (n : Nat) (position : Position) (ts : List Token) (e : Tall Expr)
    (_ : Token) : Prop :=
  Derives n ts (.callable e.tree) ∧ e.Fits Expr.height ∧ e.tree.position = position

/-- A statement that could go on with `else` has gone on with it. -/
def StatementRead (n : Nat) (ts : List Token) (s : Tall Stmt) (next : Token) : Prop :=
  Derives n ts (.statement s.tree) ∧ s.Fits Stmt.height ∧
    (s.tree.endsOpen = true → next.kind ≠ .keywordElse)

def StatementsRead (n : Nat) (ts : List Token) (all : Array (Tall Stmt)) (_ : Token) : Prop :=
  Derives n ts (.statements (all.map Tall.tree).toList) ∧
    ∀ s ∈ all.toList, Tall.Fits Stmt.height s

/-- What is known of three rules that read what they should. -/
structure Nested.Sound (inner : Nested) (n : Nat) : Prop where
  statement (first : Token) : inner.statement.Reads first (StatementRead n)
  expression (first : Token) : inner.expression.Reads first (ExpressionRead n)
  operand (first : Token) : inner.operand.Reads first fun ts e next =>
    ∃ m, n = m + 1 ∧ OperandRead m 0 ts e next

theorem of_endsOpen {s : Stmt} {p : Prop} (h : s.endsOpen = false) (hs : s.endsOpen = true) :
    p :=
  absurd (h.symm.trans hs) Bool.false_ne_true

variable {inner : Nested} {n : Nat}

theorem operators_reads {rank : Nat} {next : Rule (Tall Expr)}
    (hnext : ∀ first, next.Reads first (OperandRead n rank)) (first : Token) :
    (operators (rankOperator (rank + 1)) next).Reads first (OperandRead n (rank + 1)) := by
  refine (hnext first).bind fun ts left second hleft => ?_
  have hstart : OperandRead n (rank + 1) ts left second := ⟨.tighter hleft.1, hleft.2⟩
  refine (Reads.chain ?_ hstart).mono fun us e next he => he.1
  intro ts left sign rule hl hrule second
  obtain ⟨make, hmake, rfl⟩ := Option.map_eq_some_iff.1 hrule
  obtain ⟨c, hrank, hkind, rfl⟩ := exists_connective hmake
  refine (hnext second).bind fun us right third hr => ?_
  refine Reads.node fun hle => ?_
  have hl' := hl.1
  rw [← hrank] at hl'
  have hderives := Derives.connected hl' hkind.symm (by rw [hrank]; exact hr.1)
  rw [hrank] at hderives
  refine ⟨by simpa using hderives, ?_, hle⟩
  have hheight : (c.join left.tree right.tree sign.position).height =
      max left.tree.height right.tree.height + 1 := by
    cases c <;> simp [Connective.join, Expr.height]
  dsimp only
  rw [hheight, hl.2.height_eq, hr.2.height_eq]

theorem operands_reads (hunary : ∀ first, (unary inner).Reads first (OperandRead n 0))
    (rank : Nat) (first : Token) : (operands inner rank).Reads first (OperandRead n rank) := by
  induction rank generalizing first with
  | zero => exact hunary first
  | succ rank ih => exact operators_reads ih first

theorem argumentList_reads (h : inner.Sound n) (close : TokenKind)
    (hclose : close ≠ .endOfStream) (first : Token) :
    (argumentList inner close).Reads first fun ts es _ =>
      ∃ us closing, ts = us ++ [closing] ∧ closing.kind = close ∧
        Derives n us (.arguments es.tree) ∧ es.height = exprsHeight es.tree := by
  refine Reads.within (Reads.accept_bind hclose ?_ ?_)
  · intro hfirst next
    exact Reads.pure ⟨[], first, rfl, hfirst, .noArguments, rfl⟩
  · intro _
    refine (h.expression first).bind fun ts e second he => ?_
    let I : List Token → Array (Tall Expr) → Token → Prop := fun ts all _ =>
      Derives n ts (.series (all.toList.map Tall.tree)) ∧
        ∀ e ∈ all.toList, Tall.Fits Expr.height e
    have hstart : I ts #[e] second := ⟨.one he.1, by simpa using he.2⟩
    refine (Reads.chain (I := I) ?_ hstart).bind fun us all third hall => ?_
    · intro ts all comma rule hI hrule next
      split at hrule
      case isFalse => contradiction
      case isTrue hcomma =>
        cases hrule
        refine (h.expression next).bind fun us e' after he' => Reads.pure ⟨?_, ?_⟩
        · have hmore := Derives.more hI.1 hcomma he'.1
          simpa using hmore
        · intro e'' he''
          rw [Array.toList_push, List.mem_append, List.mem_singleton] at he''
          rcases he'' with hmem | rfl
          · exact hI.2 e'' hmem
          · exact he'.2
    · refine Reads.require_bind hclose fun hthird next => Reads.pure ?_
      have hheight := foldl_height_exprs all.toList fun e he => (hall.1.2 e he).height_eq
      refine ⟨ts ++ us, third, by simp, hthird, ?_, ?_⟩
      · simpa using Derives.someArguments hall.1.1
      · simpa using hheight

theorem suffixes_reads (h : inner.Sound n) {ts : List Token} {base : Tall Expr} {first : Token}
    (hbase : CallableRead n base.tree.position ts base first) :
    (suffixes inner base).Reads first fun us e _ =>
      Derives n (ts ++ us) (.callable e.tree) ∧ e.Fits Expr.height := by
  refine (Reads.chain ?_ hbase).mono fun us e next he => ⟨he.1.1, he.1.2.1⟩
  intro ts callee sign rule hcallee hrule next
  obtain ⟨hderives, hfits, hposition⟩ := hcallee
  split at hrule
  · cases hrule
    refine (argumentList_reads h .closeParen (by decide) next).bind fun us es after hes => ?_
    obtain ⟨us, closing, rfl, hclosing, harguments, hheight⟩ := hes
    refine Reads.node fun hle => ?_
    have hcall := Derives.call hderives ‹_› harguments hclosing
    rw [hposition] at hcall
    refine ⟨by simpa using hcall, ⟨?_, hle⟩, rfl⟩
    rw [hheight, hfits.height_eq, Expr.height]
  · cases hrule
    refine (argumentList_reads h .closeBracket (by decide) next).bind fun us es after hes => ?_
    obtain ⟨us, closing, rfl, hclosing, harguments, hheight⟩ := hes
    refine Reads.node fun hle => ?_
    have hindex := Derives.index hderives ‹_› harguments hclosing
    rw [hposition] at hindex
    refine ⟨by simpa using hindex, ⟨?_, hle⟩, rfl⟩
    rw [hheight, hfits.height_eq, Expr.height]
  · cases hrule
    refine Reads.require_bind (by decide) fun hname after => ?_
    refine (Reads.node (P := fun us e _ => us = [] ∧ e = ⟨.name next.lexeme next.position, 1⟩)
      fun _ => ⟨rfl, rfl⟩).bind fun us child after' hchild => ?_
    obtain ⟨rfl, rfl⟩ := hchild
    refine Reads.node fun hle => ?_
    have hmember := Derives.member hderives ‹_› hname
    rw [hposition] at hmember
    refine ⟨by simpa using hmember, ⟨?_, hle⟩, rfl⟩
    simp [hfits.height_eq, Expr.height]
  · contradiction

theorem literal_reads {first : Token} {v : Value} (hconstant : constant? first = some v) :
    (literal v).Reads first (OperandRead n 0) := by
  have hkind : first.kind ≠ .endOfStream := by
    intro hend
    simp [constant?, hend] at hconstant
  refine Reads.take_bind hkind fun next => Reads.node fun hle => ?_
  exact ⟨.constant hconstant, rfl, hle⟩

theorem functionLiteral_reads (h : inner.Sound n) (first : Token) :
    (functionLiteral inner).Reads first (CallableRead n first.position) := by
  refine Reads.within ?_
  refine Reads.require_bind (by decide) fun hfun second => ?_
  refine Reads.require_bind (by decide) fun hopen third => ?_
  refine Reads.require_bind (by decide) fun hclose fourth => ?_
  refine (h.statement fourth).bind fun ts body next hbody => Reads.node fun hle => ?_
  refine ⟨?_, ⟨?_, hle⟩, rfl⟩
  · simpa using Derives.function hfun hopen hclose hbody.1
  · rw [hbody.2.1.height_eq, Expr.height]

theorem parenthesized_reads (h : inner.Sound n) {first : Token} (hopen : first.kind = .openParen) :
    (parenthesized inner first.position).Reads first (OperandRead n 0) := by
  refine Reads.take_bind (by rw [hopen]; decide) fun second => ?_
  refine (h.expression second).bind fun ts e third he => ?_
  refine Reads.peek_bind ?_
  split
  · exact Reads.fail.bind fun _ _ _ (hQ : False) => hQ.elim
  · rename_i hclose
    have hclose : third.kind = .closeParen := Decidable.not_not.1 hclose
    refine Reads.take_bind (by rw [hclose]; decide) fun next => Reads.node fun hle => ?_
    refine ⟨?_, ?_, hle⟩
    · simpa using Derives.group hopen he.1 hclose
    · rw [he.2.height_eq, Expr.height]

theorem callable_reads {rule : Rule (Tall Expr)} (ts : List Token) {first : Token}
    (h : rule.Reads first fun us e _ => Derives n (ts ++ us) (.callable e.tree) ∧
      e.Fits Expr.height) :
    rule.Reads first fun us => OperandRead n 0 (ts ++ us) :=
  h.mono fun _ _ _ he => ⟨.called he.1, he.2⟩

theorem primary_reads (h : inner.Sound n) (first : Token) :
    (primary inner).Reads first (OperandRead n 0) := by
  refine Reads.peek_bind ?_
  split
  · exact literal_reads (by simp [constant?, *])
  · exact literal_reads (by simp [constant?, *])
  · exact literal_reads (by simp [constant?, *])
  · split
    · exact literal_reads (by simp [constant?, *])
    · exact Reads.fail
  · split
    · exact literal_reads (by simp [constant?, *])
    · exact Reads.fail
  · split
    · exact literal_reads (by simp [constant?, *])
    · exact Reads.fail
  · exact parenthesized_reads h ‹_›
  · rename_i hname
    refine Reads.take_bind (by rw [hname]; decide) fun second => ?_
    refine (Reads.node (P := fun ts => CallableRead n first.position (first :: ts))
      fun hle => ⟨.name hname, ⟨rfl, hle⟩, rfl⟩).bind fun ts e next he => ?_
    refine callable_reads (first :: ts) ?_
    exact suffixes_reads h (he.2.2 ▸ he)
  · refine (functionLiteral_reads h first).bind fun ts e next he => ?_
    exact callable_reads ts (suffixes_reads h (he.2.2 ▸ he))
  · exact Reads.fail
  · exact Reads.fail

theorem unary_reads (h : inner.Sound n) (first : Token) :
    (unary inner).Reads first (OperandRead n 0) := by
  refine Reads.peek_bind ?_
  split
  · exact primary_reads h first
  · rename_i op hop
    have hkind := prefixKind_of_prefixOperator hop
    refine Reads.take_bind (by rw [hkind]; cases op <;> decide) fun second => ?_
    refine (h.operand second).bind fun ts e next he => Reads.node fun hle => ?_
    obtain ⟨m, rfl, hderives, hfits⟩ := he
    refine ⟨?_, ?_, hle⟩
    · simpa using Derives.prefixed hkind hderives
    · rw [hfits.height_eq, Expr.height]

theorem expression_reads (h : inner.Sound n) (first : Token) :
    (expression inner).Reads first (ExpressionRead (n + 1)) := by
  rw [expression_eq_operands]
  refine (operands_reads (unary_reads h) loosest first).mono fun ts e _ he => ?_
  exact ⟨.expression he.1, he.2⟩

theorem statements_step (h : inner.Sound n) {ts : List Token} {all : Array (Tall Stmt)}
    {first : Token} (hall : StatementsRead n ts all first) :
    inner.statement.Reads first fun us s next =>
      us ≠ [] ∧ StatementsRead n (ts ++ us) (all.push s) next := by
  refine (h.statement first).mono fun us s next hs => ⟨hs.1.ne_nil rfl, ?_, ?_⟩
  · simpa using hall.1.append_one hs.1
  · intro s' hs'
    rw [Array.toList_push, List.mem_append, List.mem_singleton] at hs'
    rcases hs' with hmem | rfl
    · exact hall.2 s' hmem
    · exact hs.2.1

theorem block_reads (h : inner.Sound n) (first : Token) :
    (block inner).Reads first (StatementRead (n + 1)) := by
  refine Reads.within ?_
  refine Reads.require_bind (by decide) fun hopen second => ?_
  have hstart : StatementsRead n [] #[] second := ⟨by simpa using .none, by simp⟩
  refine (Reads.statements ?_ hstart).bind fun ts all third hall => ?_
  · exact fun ts all first hall _ => statements_step h hall
  · refine Reads.require_bind (by decide) fun hclose next => Reads.node fun hle => ?_
    refine ⟨?_, ⟨?_, hle⟩, of_endsOpen rfl⟩
    · simpa using Derives.block hopen hall.1.1 hclose
    · have hheight := foldl_height_stmts all.toList fun s hs => (hall.1.2 s hs).height_eq
      simpa [Stmt.height] using hheight

theorem declaration_reads (h : inner.Sound n) (first : Token) :
    (declaration inner).Reads first (StatementRead (n + 1)) := by
  refine Reads.within ?_
  refine Reads.require_bind (by decide) fun hvar second => ?_
  refine Reads.require_bind (by decide) fun hname third => ?_
  refine Reads.require_bind (by decide) fun hassign fourth => ?_
  refine (h.expression fourth).bind fun ts e fifth he => ?_
  refine Reads.require_bind (by decide) fun hstop next => Reads.node fun hle => ?_
  refine ⟨?_, ⟨?_, hle⟩, of_endsOpen rfl⟩
  · simpa using Derives.declare hvar hname hassign he.1 hstop
  · rw [he.2.height_eq, Stmt.height]

theorem returnStatement_reads (h : inner.Sound n) (first : Token) :
    (returnStatement inner).Reads first (StatementRead (n + 1)) := by
  refine Reads.within ?_
  refine Reads.require_bind (by decide) fun hreturn second => ?_
  refine Reads.accept_bind (by decide) ?_ ?_
  · intro hstop next
    rw [if_pos rfl]
    refine Reads.node fun hle => ?_
    exact ⟨.returnNull hreturn hstop, ⟨rfl, hle⟩, of_endsOpen rfl⟩
  · intro _
    refine (h.expression second).bind fun ts e third he => ?_
    refine Reads.require_bind (by decide) fun hstop next => Reads.node fun hle => ?_
    refine ⟨?_, ⟨?_, hle⟩, of_endsOpen rfl⟩
    · simpa using Derives.returnValue hreturn he.1 hstop
    · rw [he.2.height_eq, Stmt.height]

theorem condition_reads (h : inner.Sound n) (first : Token) :
    (condition inner).Reads first fun ts e _ =>
      ∃ opening us closing, ts = opening :: us ++ [closing] ∧ opening.kind = .openParen ∧
        closing.kind = .closeParen ∧ Derives n us (.expression e.tree) ∧ e.Fits Expr.height := by
  refine Reads.require_bind (by decide) fun hopen second => ?_
  refine (h.expression second).bind fun ts e third he => ?_
  refine Reads.require_bind (by decide) fun hclose next => Reads.pure ?_
  exact ⟨first, ts, third, by simp, hopen, hclose, he⟩

theorem ifStatement_reads (h : inner.Sound n) (first : Token) :
    (ifStatement inner).Reads first (StatementRead (n + 1)) := by
  refine Reads.within ?_
  refine Reads.require_bind (by decide) fun hif second => ?_
  refine (condition_reads h second).bind fun ts test third htest => ?_
  obtain ⟨opening, ts, closing, rfl, hopen, hclose, htest, hfits⟩ := htest
  refine (h.statement third).bind fun us body fourth hbody => ?_
  obtain ⟨hbody, hfits', hopenEnd⟩ := hbody
  refine Reads.accept_bind (by decide) ?_ ?_
  · intro helse fifth
    refine (h.statement fifth).bind fun vs other next hother => Reads.node fun hle => ?_
    obtain ⟨hother, hfits'', hopenEnd'⟩ := hother
    have hclosed : body.tree.endsOpen = false := by
      cases hends : body.tree.endsOpen with
      | false => rfl
      | true => exact absurd helse (hopenEnd hends)
    refine ⟨?_, ⟨?_, hle⟩, hopenEnd'⟩
    · simpa using Derives.ifElse hif hopen htest hclose hbody hclosed helse hother
    · rw [hfits.height_eq, hfits'.height_eq, hfits''.height_eq, Stmt.height]
  · intro hno
    refine Reads.node fun hle => ⟨?_, ⟨?_, hle⟩, fun _ => hno⟩
    · simpa using Derives.ifThen hif hopen htest hclose hbody
    · rw [hfits.height_eq, hfits'.height_eq, Stmt.height]

theorem whileStatement_reads (h : inner.Sound n) (first : Token) :
    (whileStatement inner).Reads first (StatementRead (n + 1)) := by
  refine Reads.within ?_
  refine Reads.require_bind (by decide) fun hwhile second => ?_
  refine (condition_reads h second).bind fun ts test third htest => ?_
  obtain ⟨opening, ts, closing, rfl, hopen, hclose, htest, hfits⟩ := htest
  refine (h.statement third).bind fun us body next hbody => Reads.node fun hle => ?_
  obtain ⟨hbody, hfits', hopenEnd⟩ := hbody
  refine ⟨?_, ⟨?_, hle⟩, hopenEnd⟩
  · simpa using Derives.whileDo hwhile hopen htest hclose hbody
  · rw [hfits.height_eq, hfits'.height_eq, Stmt.height]

theorem expressionStatement_reads (h : inner.Sound n) (first : Token) :
    (expressionStatement inner).Reads first (StatementRead (n + 1)) := by
  refine Reads.within (Reads.peek_bind ?_)
  refine (h.expression first).head.bind fun ts e second he => ?_
  obtain ⟨⟨he, hfits⟩, hfirst⟩ := he
  obtain ⟨t, ts, rfl, -⟩ := he.starts rfl
  obtain rfl : t = first := hfirst t ts rfl
  refine Reads.accept_bind (by decide) ?_ ?_
  · intro hassign third
    refine (h.expression third).bind fun us source fourth hsource => ?_
    refine Reads.require_bind (by decide) fun hstop next => Reads.node fun hle => ?_
    refine ⟨?_, ⟨?_, hle⟩, of_endsOpen rfl⟩
    · simpa using Derives.assign he hassign hsource.1 hstop
    · rw [hfits.height_eq, hsource.2.height_eq, Stmt.height]
  · intro _
    refine Reads.require_bind (by decide) fun hstop next => Reads.node fun hle => ?_
    refine ⟨?_, ⟨?_, hle⟩, of_endsOpen rfl⟩
    · simpa using Derives.value he hstop
    · rw [hfits.height_eq, Stmt.height]

theorem statement_reads (h : inner.Sound n) (first : Token) :
    (statement inner).Reads first (StatementRead (n + 1)) := by
  refine Reads.within (Reads.peek_bind ?_)
  split
  · rename_i hstop
    refine Reads.take_bind (by rw [hstop]; decide) fun next => Reads.node fun hle => ?_
    exact ⟨.empty hstop, ⟨rfl, hle⟩, of_endsOpen rfl⟩
  · exact block_reads h first
  · exact declaration_reads h first
  · exact returnStatement_reads h first
  · exact ifStatement_reads h first
  · exact whileStatement_reads h first
  · exact Reads.fail
  · exact Reads.fail
  · exact expressionStatement_reads h first

theorem level_sound (n : Nat) : (level n).Sound n := by
  induction n with
  | zero => exact ⟨fun _ => Reads.tooDeep, fun _ => Reads.tooDeep, fun _ => Reads.tooDeep⟩
  | succ n ih =>
    refine ⟨statement_reads ih, expression_reads ih, fun first => ?_⟩
    exact (unary_reads ih first).mono fun ts e next he => ⟨n, rfl, he⟩

theorem script_reads (first : Token) :
    script.Reads first fun ts s next =>
      Derives maxNesting ts (.statements s.statements) ∧
        (∀ stmt ∈ s.statements, stmt.height ≤ maxHeight) ∧
        s.position = first.position ∧ next.kind = .endOfStream := by
  refine Reads.peek_bind ?_
  have hstart : StatementsRead maxNesting [] #[] first := ⟨by simpa using .none, by simp⟩
  refine (Reads.statements ?_ hstart).bind fun ts all next hall => ?_
  · exact fun ts all first hall _ => statements_step (level_sound maxNesting) hall
  · refine Reads.pure ⟨?_, ?_, rfl, ?_⟩
    · simpa using hall.1.1
    · intro stmt hstmt
      obtain ⟨s, hs, rfl⟩ : ∃ s ∈ all.toList, Tall.tree s = stmt := by simpa using hstmt
      rw [← (hall.1.2 s hs).height_eq]
      exact (hall.1.2 s hs).height_le
    · cases hkind : next.kind <;> simp_all [endsStatements]

theorem wholeExpression_reads (first : Token) :
    wholeExpression.Reads first fun ts e next =>
      (∃ t ∈ ts, t.kind = .endOfStream) ∨
        Derives maxNesting ts (.expression e) ∧ e.height ≤ maxHeight ∧
          next.kind = .endOfStream := by
  refine ((level_sound maxNesting).expression first).bind fun ts e next he => ?_
  have hheight : e.tree.height ≤ maxHeight := he.2.height_eq ▸ he.2.height_le
  have hrequire : (require .endOfStream).Reads next fun us _ after =>
      (∃ t ∈ us, t.kind = .endOfStream) ∨ us = [] ∧ after.kind = .endOfStream := by
    refine Reads.peek_bind ?_
    split
    · rename_i hend
      refine (Reads.take_end hend).mono fun us _ after hus => ?_
      rcases hus with rfl | hus
      · exact .inl ⟨next, List.mem_singleton_self next, hend⟩
      · exact .inr hus
    · exact Reads.fail
  refine hrequire.bind fun us _ after hus => Reads.pure ?_
  rcases hus with ⟨t, ht, hend⟩ | ⟨rfl, hend⟩
  · exact .inl ⟨t, by simp [ht], hend⟩
  · exact .inr ⟨by simpa using he.1, hheight, hend⟩

end Grammar

end StackScript
