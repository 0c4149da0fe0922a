import StackScript.Proofs.Grammar.Coupling

/-!
Reading goes on. Rules take tokens from the front and give none back, and a statement is made
only of tokens that have been taken. What fails may have taken nothing, but then the token at
fault is still the next one, and recovery drops it. So every round of a list of statements
takes a token, whether it makes a statement or not, and the list ends where it should.
-/

namespace StackScript.Grammar

variable {α β : Type}

namespace State

/-- What is ahead in the second state is the end of what is ahead in the first one. -/
structure Later (s s' : State) : Prop where
  ahead : s'.ahead.map Scanned.token <:+ s.ahead.map Scanned.token
  stop : s'.stop.token = s.stop.token

theorem tokens_settle (s : State) :
    s.settle.ahead.map Scanned.token = s.ahead.map Scanned.token := by
  cases hs : s.ahead with
  | nil => rw [(settle_of_nil hs).1]
  | cons t rest =>
    rw [(settle_of_cons hs).1]
    rfl

theorem stop_settle (s : State) : s.settle.stop.token = s.stop.token := by
  cases hs : s.ahead with
  | nil => rw [(settle_of_nil hs).2.1]
  | cons t rest => rw [(settle_of_cons hs).2.1]

namespace Later

variable {s s' s'' : State}

theorem refl (s : State) : s.Later s := ⟨List.suffix_refl _, rfl⟩

theorem trans (h : s.Later s') (h' : s'.Later s'') : s.Later s'' :=
  ⟨h'.ahead.trans h.ahead, h'.stop.trans h.stop⟩

theorem settle (s : State) : s.Later s.settle where
  ahead := s.tokens_settle ▸ List.suffix_refl _
  stop := s.stop_settle

theorem drop (s : State) : s.Later s.drop where
  ahead := by
    refine List.IsSuffix.map Scanned.token ?_
    exact List.tail_suffix s.ahead
  stop := rfl

/-- Where nothing has been taken, the next token is still the same. -/
theorem next_eq (h : s.Later s') (hleft : s.left ≤ s'.left) : s'.next = s.next := by
  have hlength : (s.ahead.map Scanned.token).length ≤ (s'.ahead.map Scanned.token).length := by
    rwa [List.length_map, List.length_map, ← s.left_eq, ← s'.left_eq]
  have hahead := h.ahead.eq_of_length_le hlength
  cases hs : s.ahead with
  | nil =>
    rw [hs, List.map_nil, List.map_eq_nil_iff] at hahead
    rw [next_of_nil hs, next_of_nil hahead, h.stop]
  | cons t rest =>
    rw [hs, List.map_cons] at hahead
    obtain ⟨t', rest', hs', ht, -⟩ := List.map_eq_cons_iff.1 hahead
    rw [next_of_cons hs, next_of_cons hs', ht]

end Later

end State

/-- A run of the rules, which leaves later states of `start` behind. -/
def Coupling.from (start : State) : Coupling where
  place := id
  holds s s' := s = s' ∧ start.Later s
  left := by
    rintro s _ ⟨rfl, -⟩
    rfl
  next := by
    rintro s _ ⟨rfl, -⟩
    rfl
  settle := by
    rintro s _ ⟨rfl, h⟩
    exact ⟨rfl, h.trans (.settle s)⟩
  drop := by
    rintro s _ ⟨rfl, h⟩
    exact ⟨rfl, (h.trans (.settle s)).trans (.drop s.settle)⟩
  tell := by
    rintro s _ ⟨rfl, h⟩ position fault arguments trail
    exact ⟨rfl, h.trans ⟨List.suffix_refl _, rfl⟩⟩

namespace Rule

/-- The rule takes tokens from the front and gives none back. -/
def Advances (rule : Rule α) : Prop :=
  ∀ trail (s : State), s.Later (rule trail s).state

theorem Advances.of_coupled {rule : Rule α} {V : State → α → α → Prop}
    (h : ∀ start, rule.Coupled (.from start) (V start) rule) : rule.Advances :=
  fun trail s => (h s trail s s ⟨rfl, .refl s⟩).2.2

/-- Started in front of `first`, the rule makes nothing without taking a token. -/
def TakesFrom (first : Token) (rule : Rule α) : Prop :=
  ∀ trail s, s.next = first → s.stop.token.kind = .endOfStream →
    (rule trail s).result.isSome = true → (rule trail s).state.left < s.left

def Takes (rule : Rule α) : Prop := ∀ first, rule.TakesFrom first

variable {rule : Rule α} {f : α → Rule β} {first : Token}

theorem TakesFrom.bind (h : rule.TakesFrom first) : (rule >>= f).TakesFrom first := by
  intro trail s hs hstop hsome
  have hrule := h trail s hs hstop
  change (Rule.bind rule f trail s).result.isSome = true at hsome
  change (Rule.bind rule f trail s).state.left < s.left
  unfold Rule.bind at hsome ⊢
  generalize rule trail s = o at hrule hsome ⊢
  obtain ⟨⟨_ | a, s₁⟩, hbefore, told⟩ := o
  · contradiction
  · exact Nat.lt_of_le_of_lt (f a trail s₁).2.1.left_le (hrule rfl)

/-- It is enough that the second rule takes a token. -/
theorem TakesFrom.of_bind (h : rule.Advances) (hf : ∀ a, (f a).Takes) :
    (rule >>= f).TakesFrom first := by
  intro trail s hs hstop hsome
  have hlater := h trail s
  change (Rule.bind rule f trail s).result.isSome = true at hsome
  change (Rule.bind rule f trail s).state.left < s.left
  unfold Rule.bind at hsome ⊢
  generalize rule trail s = o at hlater hsome ⊢
  obtain ⟨⟨_ | a, s₁⟩, hbefore, told⟩ := o
  · contradiction
  · have hstop₁ : s₁.stop.token = s.stop.token := hlater.stop
    rw [← hstop₁] at hstop
    exact Nat.lt_of_lt_of_le (hf a _ trail s₁ rfl hstop hsome) hbefore.left_le

theorem TakesFrom.peek_bind {f : Token → Rule β} (h : (f first).TakesFrom first) :
    (peek >>= f).TakesFrom first := by
  intro trail s hs hstop hsome
  have hnext : s.settle.next = first := by rwa [State.next_settle]
  have hpeek : ((peek >>= f) trail s).1 = (f first trail s.settle).1 := by
    rw [← hnext]
    rfl
  unfold Outcome.result at hsome
  unfold Outcome.state
  rw [hpeek] at hsome ⊢
  have hlt := h trail s.settle hnext (by rwa [s.stop_settle]) hsome
  rwa [State.left_settle] at hlt

theorem TakesFrom.take (h : first.kind ≠ .endOfStream) : Rule.take.TakesFrom first := by
  intro trail s hs hstop _
  have hahead : s.ahead ≠ [] := by
    intro hnil
    rw [← hs, State.next_of_nil hnil] at h
    exact h hstop
  have hpos := s.left_pos hahead
  change s.settle.drop.left < s.left
  rw [State.left_drop, State.left_settle]
  omega

theorem TakesFrom.fail {position : Position} {fault : Fault} {arguments : List String} :
    (Rule.fail position fault arguments : Rule α).TakesFrom first := by
  intro trail s hs hstop hsome
  contradiction

theorem TakesFrom.within {name : String} (h : rule.TakesFrom first) :
    (rule.within name).TakesFrom first := fun trail => h (name :: trail)

theorem Takes.require {kind : TokenKind} (h : kind ≠ .endOfStream) : (require kind).Takes := by
  intro first
  refine .peek_bind ?_
  by_cases hkind : first.kind = kind
  · rw [if_pos hkind]
    exact .take (hkind ▸ h)
  · rw [if_neg hkind]
    exact .fail

/-- Rules that begin with a token of their own. -/
theorem TakesFrom.require_bind {kind : TokenKind} {f : Token → Rule β}
    (h : kind ≠ .endOfStream) : (Rule.require kind >>= f).TakesFrom first :=
  (Takes.require h first).bind

end Rule

open Rule

theorem level_advances (n : Nat) :
    (level n).statement.Advances ∧ (level n).expression.Advances :=
  ⟨.of_coupled (fun start => (level_coupled (.from start) n).statement),
    .of_coupled (fun start => (level_coupled (.from start) n).expression)⟩

theorem accept_advances (kind : TokenKind) : (accept kind).Advances :=
  .of_coupled fun start => .accept (C := .from start) kind

theorem expressionStatement_takes {inner : Nested} (h : inner.expression.Advances)
    (first : Token) : (expressionStatement inner).TakesFrom first := by
  refine .within (.peek_bind (.of_bind h fun value => fun first => ?_))
  refine .of_bind (accept_advances _) fun isAssignment => fun first => ?_
  cases isAssignment with
  | true => exact .of_bind h fun source => fun first => .require_bind (by decide)
  | false => exact .require_bind (by decide)

theorem statement_takes {inner : Nested} (h : inner.expression.Advances) :
    (statement inner).Takes := by
  intro first
  refine .within (.peek_bind ?_)
  split
  case h_1 hkind => exact (TakesFrom.take (by rw [hkind]; decide)).bind
  case h_7 | h_8 => exact .fail
  case h_9 => exact expressionStatement_takes h first
  all_goals exact .within (.require_bind (by decide))

theorem level_takes (n : Nat) : (level n).statement.Takes := by
  cases n with
  | zero => exact fun first => .peek_bind .fail
  | succ n => exact statement_takes (level_advances n).2

/-- Recovery drops a token, unless it stands in front of the end. -/
theorem State.left_recover {s : State} {inBlock : Bool} (hstop : s.stop.token.kind = .endOfStream)
    (h : endsStatements inBlock s.next.kind = false) : (s.recover inBlock).left < s.left := by
  have hahead : s.ahead ≠ [] := by
    intro hnil
    rw [State.next_of_nil hnil, hstop] at h
    contradiction
  have hpos := s.left_pos hahead
  have hbrace : (inBlock && s.next.kind == .closeBrace) = false := by
    cases inBlock with
    | false => rfl
    | true =>
      refine beq_eq_false_iff_ne.2 fun hkind => ?_
      rw [hkind] at h
      contradiction
  have hdrop : s.settle.drop.left < s.left := by
    rw [State.left_drop, State.left_settle]
    omega
  unfold State.recover
  rw [if_neg (by rw [hbrace]; exact Bool.false_ne_true)]
  split
  · exact hdrop
  · exact Nat.lt_of_le_of_lt s.settle.drop.before_skip.left_le hdrop

/-- Every round takes a token. -/
def Rule.Progresses (statement : Rule (Tall Stmt)) : Prop :=
  ∀ inBlock all trail s, s.stop.token.kind = .endOfStream →
    endsStatements inBlock s.next.kind = false →
    (Rule.round inBlock statement all trail s).2.left < s.left

theorem Rule.Takes.progresses {statement : Rule (Tall Stmt)} (h : statement.Takes)
    (hadvances : statement.Advances) : statement.Progresses := by
  intro inBlock all trail s hstop hend
  have hlater := (State.Later.settle s).trans (hadvances trail s.settle)
  have htakes := h _ trail s.settle rfl (by rwa [s.stop_settle])
  unfold Rule.round
  generalize statement trail s.settle = o at hlater htakes ⊢
  obtain ⟨⟨result, s₁⟩, hbefore, told⟩ := o
  have hle : s₁.left ≤ s.left := by
    have := hbefore.left_le
    rwa [State.left_settle] at this
  cases result with
  | some stmt =>
    have hlt := htakes rfl
    rwa [State.left_settle] at hlt
  | none =>
    change (s₁.recover inBlock).left < s.left
    by_cases hlt : s₁.left < s.left
    · exact Nat.lt_of_le_of_lt (s₁.before_recover inBlock).left_le hlt
    · -- nothing has been taken, so the next token is the one in front of which the round began
      have hnext := hlater.next_eq (Nat.not_lt.1 hlt)
      have hstop₁ : s₁.stop.token = s.stop.token := hlater.stop
      refine Nat.lt_of_lt_of_le (State.left_recover ?_ ?_) hle
      · rwa [hstop₁]
      · change s₁.next = s.next at hnext
        rwa [hnext]

theorem level_progresses (n : Nat) : (level n).statement.Progresses :=
  (level_takes n).progresses (level_advances n).1

theorem round_later {statement : Rule (Tall Stmt)} (h : statement.Advances) (inBlock : Bool)
    (all : Array (Tall Stmt)) (trail : List String) (s : State) :
    s.Later (Rule.round inBlock statement all trail s).2 := by
  have hlater := (State.Later.settle s).trans (h trail s.settle)
  unfold Rule.round
  generalize statement trail s.settle = o at hlater ⊢
  obtain ⟨⟨result, s₁⟩, hbefore, told⟩ := o
  cases result with
  | some stmt => exact hlater
  | none =>
    have hrecover := (Coupling.from s).recover (s := s₁) ⟨rfl, hlater⟩ inBlock
    exact hrecover.2

/-- A list of statements goes on up to its end. -/
theorem statements_finish {statement : Rule (Tall Stmt)} (h : statement.Progresses)
    (hadvances : statement.Advances) (inBlock : Bool) (all : Array (Tall Stmt))
    (trail : List String) (s : State) (hstop : s.stop.token.kind = .endOfStream) :
    (statements inBlock statement all trail s).result.isSome = true ∧
      endsStatements inBlock (statements inBlock statement all trail s).state.next.kind = true := by
  induction hn : s.left using Nat.strongRecOn generalizing all s with
  | ind n ih =>
    unfold Outcome.result Outcome.state
    cases hend : endsStatements inBlock s.next.kind with
    | true =>
      rw [statements_end inBlock statement all trail hend]
      exact ⟨rfl, by rw [State.next_settle, hend]⟩
    | false =>
      have hlt := h inBlock all trail s hstop hend
      rw [statements_round_go inBlock statement all trail hend hlt]
      refine ih _ (hn ▸ hlt) _ _ ?_ rfl
      rw [(round_later hadvances inBlock all trail s).stop]
      exact hstop

end StackScript.Grammar
