import StackScript.Grammar.Script

/-!
Rules that tell nothing. `Reads` says what follows when a rule ends with nothing
told: it has made something, and the tokens it has taken were all in order.
`Gives` says that a rule makes something of tokens that are in order. Both are
composed along the way in which rules are built.
-/

namespace StackScript.Grammar

variable {α β : Type}

/-- A token about which there is nothing to tell. -/
def plain (t : Token) : Scanned := { token := t }

theorem eq_plain {t : Scanned} (h : t.faults = #[]) : t = plain t.token := by
  obtain ⟨token, faults⟩ := t
  dsimp only at h
  subst h
  rfl

namespace State

/-- The state in front of tokens about which there is nothing to tell. -/
def plain (ts : List Token) (stop : Token) : State :=
  { ahead := ts.map Grammar.plain, stop := Grammar.plain stop }

theorem eq_of_fields {s s' : State} (hahead : s.ahead = s'.ahead) (hstop : s.stop = s'.stop)
    (hfaults : s.faults = s'.faults) (htold : s.told = s'.told) : s = s' := by
  obtain ⟨ahead, left, hleft, stop, faults, told⟩ := s
  obtain ⟨ahead', left', hleft', stop', faults', told'⟩ := s'
  dsimp only at hahead hstop hfaults htold
  subst hahead hstop hfaults htold hleft hleft'
  rfl

theorem Before.quiet {s s' : State} (h : s.Before s') (hs : s'.faults = #[]) :
    s.faults = #[] := by
  have hle := h.size_le
  rw [hs] at hle
  exact Array.size_eq_zero_iff.1 (Nat.le_zero.1 hle)

theorem settle_of_nil {s : State} (hs : s.ahead = []) :
    s.settle.ahead = [] ∧ s.settle.stop = { s.stop with faults := #[] } ∧
      s.settle.faults = s.faults ++ s.stop.faults ∧
      s.settle.told = (s.told || !s.stop.faults.isEmpty) := by
  unfold settle
  split
  · exact ⟨hs, rfl, rfl, rfl⟩
  · rename_i t rest ht
    rw [hs] at ht
    contradiction

theorem settle_of_cons {s : State} {t : Scanned} {rest : List Scanned}
    (hs : s.ahead = t :: rest) :
    s.settle.ahead = { t with faults := #[] } :: rest ∧ s.settle.stop = s.stop ∧
      s.settle.faults = s.faults ++ t.faults ∧
      s.settle.told = (s.told || !t.faults.isEmpty) := by
  unfold settle
  split
  · rename_i hnil
    rw [hs] at hnil
    contradiction
  · rename_i u rest' hu
    obtain ⟨rfl, rfl⟩ : t = u ∧ rest = rest' := by simpa using hs.symm.trans hu
    split
    · rename_i ht
      have ht : t.faults = #[] := by simpa using ht
      refine ⟨?_, rfl, by simp [ht], by simp [ht]⟩
      rw [hs, eq_plain ht]
      rfl
    · rename_i ht
      exact ⟨rfl, rfl, rfl, by simp [ht]⟩

theorem next_of_nil {s : State} (hs : s.ahead = []) : s.next = s.stop.token := by
  unfold next
  rw [hs]

theorem next_of_cons {s : State} {t : Scanned} {rest : List Scanned} (hs : s.ahead = t :: rest) :
    s.next = t.token := by
  unfold next
  rw [hs]

@[simp] theorem next_settle (s : State) : s.settle.next = s.next := by
  cases hs : s.ahead with
  | nil => rw [next_of_nil hs, next_of_nil (settle_of_nil hs).1, (settle_of_nil hs).2.1]
  | cons t rest => rw [next_of_cons hs, next_of_cons (settle_of_cons hs).1]

/-- A state that settling leaves with nothing told had nothing to tell. -/
theorem settle_quiet {s : State} (h : s.settle.faults = #[]) : s.settle = s ∧ s.faults = #[] := by
  cases hs : s.ahead with
  | nil =>
    obtain ⟨hahead, hstop, hfaults, htold⟩ := settle_of_nil hs
    obtain ⟨h₁, h₂⟩ : s.faults = #[] ∧ s.stop.faults = #[] := by simpa [hfaults] using h
    refine ⟨eq_of_fields (hahead.trans hs.symm) ?_ (by rw [h, h₁]) (by simp [htold, h₂]), h₁⟩
    rw [hstop, eq_plain h₂]
    rfl
  | cons t rest =>
    obtain ⟨hahead, hstop, hfaults, htold⟩ := settle_of_cons hs
    obtain ⟨h₁, h₂⟩ : s.faults = #[] ∧ t.faults = #[] := by simpa [hfaults] using h
    refine ⟨eq_of_fields ?_ hstop (by rw [h, h₁]) (by simp [htold, h₂]), h₁⟩
    rw [hahead, hs, eq_plain h₂]
    rfl

@[simp] theorem settle_plain (ts : List Token) (stop : Token) :
    (plain ts stop).settle = plain ts stop := by
  cases ts with
  | nil =>
    obtain ⟨hahead, hstop, hfaults, htold⟩ := settle_of_nil (s := plain [] stop) rfl
    exact eq_of_fields hahead hstop hfaults htold
  | cons t ts =>
    obtain ⟨hahead, hstop, hfaults, htold⟩ := settle_of_cons (s := plain (t :: ts) stop) rfl
    exact eq_of_fields hahead hstop hfaults htold

@[simp] theorem next_plain (ts : List Token) (stop : Token) :
    (plain ts stop).next = ts.headD stop := by
  cases ts <;> rfl

@[simp] theorem drop_plain_cons (t : Token) (ts : List Token) (stop : Token) :
    (plain (t :: ts) stop).drop = plain ts stop :=
  eq_of_fields rfl rfl rfl rfl

/-- From one state to a later one these tokens have been taken, and there has been
nothing to tell. -/
structure Passes (s : State) (ts : List Token) (s' : State) : Prop where
  quiet : s.faults = #[]
  ahead : s.ahead = ts.map Grammar.plain ++ s'.ahead
  stop : s'.stop = s.stop

theorem Passes.refl {s : State} (h : s.faults = #[]) : s.Passes [] s := ⟨h, rfl, rfl⟩

theorem Passes.trans {s s' s'' : State} {ts us : List Token} (h : s.Passes ts s')
    (h' : s'.Passes us s'') : s.Passes (ts ++ us) s'' where
  quiet := h.quiet
  ahead := by rw [h.ahead, h'.ahead, List.map_append, List.append_assoc]
  stop := h'.stop.trans h.stop

theorem Passes.left_lt {s s' : State} {ts : List Token} (h : s.Passes ts s') (hne : ts ≠ []) :
    s'.left < s.left := by
  have hlen := List.length_pos_iff.2 hne
  rw [s.left_eq, s'.left_eq, h.ahead, List.length_append, List.length_map]
  omega

/-- Taking a token that settling finds in order. -/
theorem Passes.of_take {s : State} (hne : s.ahead ≠ []) (h : s.settle.drop.faults = #[]) :
    s.Passes [s.next] s.settle.drop := by
  cases hs : s.ahead with
  | nil => exact absurd hs hne
  | cons t rest =>
    obtain ⟨heq, hquiet⟩ := settle_quiet (s := s) h
    obtain ⟨hahead, -, -⟩ := settle_of_cons hs
    have ht : s.ahead = Grammar.plain t.token :: rest := by rw [← heq, hahead]; rfl
    refine ⟨hquiet, ?_, by rw [heq]; rfl⟩
    rw [heq, next_of_cons hs, ht]
    simp [drop, ht]

end State

namespace Rule

theorem chain_stop {step : α → Token → Option (Rule α)} {a : α} (trail : List String) {s : State}
    (h : s.ahead = [] ∨ step a s.next = none) :
    (chain step a trail s).1 = (some a, s.settle) := by
  rw [chain]
  split
  · rfl
  · rename_i hahead
    simp only [hahead, false_or] at h
    rw [h]
    rfl

theorem chain_go {step : α → Token → Option (Rule α)} {a : α} {rule : Rule α}
    (trail : List String) {s : State} (hahead : s.ahead ≠ []) (h : step a s.next = some rule) :
    (chain step a trail s).1 = ((take >>= fun _ => rule >>= chain step) trail s).1 := by
  have hgo : ((take >>= fun _ => rule >>= chain step) trail s).1 =
      (Rule.bind rule (chain step) trail s.settle.drop).1 := rfl
  rw [chain, dif_neg hahead, hgo, Rule.bind]
  split
  · rename_i hnone
    rw [h] at hnone
    contradiction
  · rename_i rule' hrule
    obtain rfl : rule = rule' := by simpa [h] using hrule
    generalize rule trail s.settle.drop = r
    obtain ⟨⟨_ | b, s₁⟩, h₁, told⟩ := r <;> rfl

variable (inBlock : Bool) (statement : Rule (Tall Stmt)) (all : Array (Tall Stmt))
  (trail : List String)

theorem statements_end {s : State} (h : endsStatements inBlock s.next.kind = true) :
    (statements inBlock statement all trail s).1 = (some all, s.settle) := by
  rw [statements, if_pos h]
  rfl

theorem afterStatement_some {s s₁ : State} {stmt : Tall Stmt} {o : Outcome (Tall Stmt) s}
    (h : o.1 = (some stmt, s₁)) : (afterStatement inBlock all o).1 = (all.push stmt, s₁) := by
  obtain ⟨r, hr⟩ := o
  subst h
  rfl

theorem afterStatement_none {s s₁ : State} {o : Outcome (Tall Stmt) s} (h : o.1 = (none, s₁)) :
    (afterStatement inBlock all o).1 = (all, s₁.recover inBlock) := by
  obtain ⟨r, hr⟩ := o
  subst h
  rfl

theorem statements_go {s s₁ : State} {stmt : Tall Stmt}
    (h : endsStatements inBlock s.next.kind = false)
    (hs : (statement trail s.settle).1 = (some stmt, s₁)) (hlt : s₁.left < s.left) :
    (statements inBlock statement all trail s).1 =
      (statements inBlock statement (all.push stmt) trail s₁).1 := by
  have hround := afterStatement_some inBlock all hs
  rw [statements, if_neg (by simp [h]), if_pos (by rw [hround]; exact hlt)]
  dsimp only [Outcome.since]
  rw [hround]

theorem before_statements {s : State} (h : endsStatements inBlock s.next.kind = false) :
    (afterStatement inBlock all (statement trail s.settle)).1.2.Before
      (statements inBlock statement all trail s).state := by
  rw [statements, if_neg (by simp [h])]
  dsimp only
  split
  · exact (statements inBlock statement _ trail _).2.1
  · exact .refl _

/-- Statements among which one is wrong have been told about. -/
theorem statements_told {s s₁ : State} (h : endsStatements inBlock s.next.kind = false)
    (hs : (statement trail s.settle).1 = (none, s₁)) :
    (statements inBlock statement all trail s).state.faults ≠ #[] := by
  have hbefore := before_statements inBlock statement all trail h
  rw [afterStatement_none inBlock all hs] at hbefore
  have htold := (statement trail s.settle).2.2 (by rw [hs])
  rw [hs] at htold
  intro hnil
  have hquiet := ((s₁.before_recover inBlock).trans hbefore).quiet hnil
  dsimp only at htold
  rw [hquiet] at htold
  contradiction

/-- Where statements end with nothing told and do not end at once, one has been read. -/
theorem statements_round {s : State} (h : endsStatements inBlock s.next.kind = false)
    (hquiet : (statements inBlock statement all trail s).state.faults = #[]) :
    s.settle = s ∧ ∃ stmt s₁, (statement trail s).1 = (some stmt, s₁) ∧ s₁.faults = #[] ∧
      (s₁.left < s.left → (statements inBlock statement all trail s).1 =
        (statements inBlock statement (all.push stmt) trail s₁).1) := by
  cases hone : (statement trail s.settle).1 with
  | mk result s₁ =>
    cases result with
    | none => exact absurd hquiet (statements_told inBlock statement all trail h hone)
    | some stmt =>
      have hbefore := before_statements inBlock statement all trail h
      rw [afterStatement_some inBlock all hone] at hbefore
      have hquiet₁ : s₁.faults = #[] := hbefore.quiet hquiet
      have hle := (statement trail s.settle).2.1
      rw [hone] at hle
      obtain ⟨heq, -⟩ := State.settle_quiet (hle.quiet hquiet₁)
      have hgo := statements_go inBlock statement all trail h hone
      rw [heq] at hone
      exact ⟨heq, stmt, s₁, hone, hquiet₁, hgo⟩

/-- If the rule ends with nothing told, having started in front of `first`, then it has
made something, and the tokens that it took, what it made of them and the token that it
left for the next rule are as `P` says. -/
def Reads (rule : Rule α) (first : Token) (P : List Token → α → Token → Prop) : Prop :=
  ∀ trail s, s.next = first → s.stop.token.kind = .endOfStream →
    (rule trail s).state.faults = #[] →
    ∃ ts a, (rule trail s).result = some a ∧ s.Passes ts (rule trail s).state ∧
      P ts a (rule trail s).state.next

namespace Reads

variable {rule : Rule α} {first : Token} {P Q : List Token → α → Token → Prop}

theorem mono (h : rule.Reads first P) (hPQ : ∀ ts a next, P ts a next → Q ts a next) :
    rule.Reads first Q := by
  intro trail s hs hstop hf
  obtain ⟨ts, a, ha, hp, hP⟩ := h trail s hs hstop hf
  exact ⟨ts, a, ha, hp, hPQ ts a _ hP⟩

/-- The first token that is taken is the one in front of which the rule started. -/
theorem head (h : rule.Reads first P) :
    rule.Reads first fun ts a next => P ts a next ∧ ∀ t us, ts = t :: us → t = first := by
  intro trail s hs hstop hf
  obtain ⟨ts, a, ha, hp, hP⟩ := h trail s hs hstop hf
  refine ⟨ts, a, ha, hp, hP, ?_⟩
  rintro t us rfl
  rw [State.next_of_cons hp.ahead] at hs
  exact hs

theorem pure {a : α} (h : P [] a first) : Reads (Pure.pure a : Rule α) first P := by
  intro trail s hs hstop hf
  refine ⟨[], a, rfl, State.Passes.refl hf, ?_⟩
  rw [← hs] at h
  exact h

/-- What a rule took and what the rule behind it took belong together. -/
theorem bind {f : α → Rule β} {P : List Token → β → Token → Prop} (h : rule.Reads first Q)
    (hf : ∀ us a next, Q us a next → (f a).Reads next fun ts => P (us ++ ts)) :
    Reads (rule >>= f) first P := by
  intro trail s hs hstop hfaults
  have hrule := h trail s hs hstop
  change (Rule.bind rule f trail s).state.faults = #[] at hfaults
  change ∃ ts a, (Rule.bind rule f trail s).result = some a ∧
    s.Passes ts (Rule.bind rule f trail s).state ∧ P ts a (Rule.bind rule f trail s).state.next
  unfold Rule.bind at hfaults ⊢
  generalize rule trail s = r at hrule hfaults ⊢
  obtain ⟨⟨_ | a, s₁⟩, hbefore, told⟩ := r
  · obtain ⟨ts, a, ha, -, -⟩ := hrule hfaults
    contradiction
  · have hquiet : s₁.faults = #[] := (f a trail s₁).2.1.quiet hfaults
    obtain ⟨us, a', ha', hp, hQ⟩ := hrule hquiet
    cases ha'
    obtain ⟨ts, b, hb, hp', hP⟩ := hf us a _ hQ trail s₁ rfl (hp.stop ▸ hstop) hfaults
    exact ⟨us ++ ts, b, hb, hp.trans hp', hP⟩

theorem peek : Rule.peek.Reads first fun ts t next => ts = [] ∧ t = first ∧ next = first := by
  intro trail s hs hstop hf
  obtain ⟨heq, hquiet⟩ := State.settle_quiet (s := s) hf
  refine ⟨[], _, rfl, ?_, rfl, (State.next_settle s).trans hs, (State.next_settle s).trans hs⟩
  change s.Passes [] s.settle
  rw [heq]
  exact .refl hquiet

theorem take (hkind : first.kind ≠ .endOfStream) :
    Rule.take.Reads first fun ts t _ => ts = [first] ∧ t = first := by
  intro trail s hs hstop hf
  subst hs
  have hne : s.ahead ≠ [] := by
    intro hnil
    rw [State.next_of_nil hnil] at hkind
    contradiction
  exact ⟨[s.next], _, rfl, .of_take hne hf, rfl, State.next_settle s⟩

/-- The end of the stream is not taken unless it stands among the tokens. -/
theorem take_end (hkind : first.kind = .endOfStream) :
    Rule.take.Reads first fun ts _ next =>
      ts = [first] ∨ ts = [] ∧ next.kind = .endOfStream := by
  intro trail s hs hstop hf
  by_cases hnil : s.ahead = []
  · obtain ⟨heq, hquiet⟩ := State.settle_quiet (s := s) hf
    have hdrop : s.settle.drop = s := by
      rw [heq]
      exact State.eq_of_fields (by simp [State.drop, hnil]) rfl rfl rfl
    refine ⟨[], _, rfl, ?_, .inr ⟨rfl, ?_⟩⟩
    · change s.Passes [] s.settle.drop
      rw [hdrop]
      exact .refl hquiet
    · change s.settle.drop.next.kind = _
      rw [hdrop, hs, hkind]
  · subst hs
    exact ⟨[s.next], _, rfl, .of_take hnil hf, .inl rfl⟩

theorem fail {position : Position} {fault : Fault} {arguments : List String} :
    (Rule.fail position fault arguments : Rule α).Reads first P := by
  intro trail s hs hstop hf
  have hsize := congrArg Array.size hf
  simp [Rule.fail, Outcome.state] at hsize

theorem within {name : String} (h : rule.Reads first P) : (Rule.within name rule).Reads first P :=
  fun trail s => h (name :: trail) s

/-- Looking at the next token settles what it is. -/
theorem peek_bind {f : Token → Rule α} (h : (f first).Reads first P) :
    Reads (Rule.peek >>= f) first P := by
  refine peek.bind fun us t next hQ => ?_
  obtain ⟨rfl, rfl, rfl⟩ := hQ
  exact h

theorem take_bind {f : Token → Rule α} (hkind : first.kind ≠ .endOfStream)
    (h : ∀ next, (f first).Reads next fun ts => P (first :: ts)) :
    Reads (Rule.take >>= f) first P := by
  refine (take hkind).bind fun us t next hQ => ?_
  obtain ⟨rfl, rfl⟩ := hQ
  exact h next

theorem require_bind {kind : TokenKind} {f : Token → Rule α} (hkind : kind ≠ .endOfStream)
    (h : first.kind = kind → ∀ next, (f first).Reads next fun ts => P (first :: ts)) :
    Reads (Rule.require kind >>= f) first P := by
  have hrequire : (Rule.require kind).Reads first
      fun ts t _ => ts = [first] ∧ t = first ∧ first.kind = kind := by
    refine peek_bind ?_
    split
    · rename_i hfirst
      exact (take (hfirst ▸ hkind)).mono fun ts t next hQ => ⟨hQ.1, hQ.2, hfirst⟩
    · exact fail
  refine hrequire.bind fun us t next hQ => ?_
  obtain ⟨rfl, rfl, hfirst⟩ := hQ
  exact h hfirst next

theorem accept_bind {kind : TokenKind} {f : Bool → Rule α} (hkind : kind ≠ .endOfStream)
    (yes : first.kind = kind → ∀ next, (f true).Reads next fun ts => P (first :: ts))
    (no : first.kind ≠ kind → (f false).Reads first P) :
    Reads (Rule.accept kind >>= f) first P := by
  have haccept : (Rule.accept kind).Reads first fun ts found next =>
      found = true ∧ ts = [first] ∧ first.kind = kind ∨
        found = false ∧ ts = [] ∧ next = first ∧ first.kind ≠ kind := by
    refine peek_bind ?_
    split
    · rename_i hfirst
      exact take_bind (hfirst ▸ hkind) fun next => pure (.inl ⟨rfl, rfl, hfirst⟩)
    · rename_i hfirst
      exact pure (.inr ⟨rfl, rfl, rfl, hfirst⟩)
  refine haccept.bind fun us found next hQ => ?_
  obtain ⟨rfl, rfl, hfirst⟩ | ⟨rfl, rfl, rfl, hfirst⟩ := hQ
  · exact yes hfirst next
  · exact no hfirst

/-- What holds at the start of a chain and is kept by each of its rounds holds at its
end, where the next token is one that the chain does not go on with. -/
theorem chain {step : α → Token → Option (Rule α)} {I : List Token → α → Token → Prop}
    (hstep : ∀ ts a first rule, I ts a first → step a first = some rule →
      ∀ next, rule.Reads next fun us => I (ts ++ first :: us))
    {ts : List Token} {a : α} (h : I ts a first) :
    (Rule.chain step a).Reads first fun us b next =>
      I (ts ++ us) b next ∧ (next.kind = .endOfStream ∨ step b next = none) := by
  intro trail s hs hstop hfaults
  induction hn : s.left using Nat.strongRecOn generalizing s ts a first with
  | ind n ih =>
    by_cases hend : s.ahead = [] ∨ step a s.next = none
    · have hchain := chain_stop trail hend
      have hquiet : s.settle.faults = #[] := by simpa [Outcome.state, hchain] using hfaults
      obtain ⟨heq, hquiet⟩ := State.settle_quiet hquiet
      refine ⟨[], a, by simp [Outcome.result, hchain], ?_, ?_, ?_⟩
      · simpa [Outcome.state, hchain, heq] using State.Passes.refl hquiet
      · simpa [Outcome.state, hchain, heq, hs] using h
      · rw [show (Rule.chain step a trail s).state = s from
          (congrArg Prod.snd hchain).trans heq]
        rcases hend with hnil | hnone
        · exact .inl (by rw [State.next_of_nil hnil, hstop])
        · exact .inr hnone
    · obtain ⟨hahead, hnone⟩ := not_or.1 hend
      obtain ⟨rule, hrule⟩ := Option.ne_none_iff_exists'.1 hnone
      have hgo : (Rule.chain step a trail s).1 =
          (Rule.bind rule (Rule.chain step) trail s.settle.drop).1 := chain_go trail hahead hrule
      unfold Outcome.state at hfaults ⊢
      unfold Outcome.result
      rw [hgo] at hfaults ⊢
      have hquiet : s.settle.drop.faults = #[] :=
        (Rule.bind rule (Rule.chain step) trail s.settle.drop).2.1.quiet hfaults
      have htake := State.Passes.of_take hahead hquiet
      have hrun := hstep ts a s.next rule (hs ▸ h) hrule s.settle.drop.next trail
        s.settle.drop rfl (htake.stop ▸ hstop)
      unfold Rule.bind at hfaults ⊢
      generalize rule trail s.settle.drop = r at hrun hfaults ⊢
      obtain ⟨⟨_ | b, s₁⟩, hbefore⟩ := r
      · obtain ⟨us, b, hb, -, -⟩ := hrun hfaults
        contradiction
      · have hlt : s₁.left < n := by
          have := s.left_pos hahead
          have := hbefore.1.left_le
          simp at this
          omega
        have hquiet₁ : s₁.faults = #[] := (Rule.chain step b trail s₁).2.1.quiet hfaults
        obtain ⟨us, b', hb, hp, hI⟩ := hrun hquiet₁
        cases hb
        have hstop₁ : s₁.stop.token.kind = .endOfStream := by
          rw [show s₁.stop = s.stop from (htake.trans hp).stop, hstop]
        obtain ⟨vs, c, hc, hp', hI', hend'⟩ := ih _ hlt hI s₁ rfl hstop₁ hfaults rfl
        refine ⟨s.next :: us ++ vs, c, hc, (htake.trans hp).trans hp', ?_, hend'⟩
        rw [List.append_assoc] at hI'
        exact hI'

theorem node {tree : α} {height : Nat} {position : Position}
    {P : List Token → Tall α → Token → Prop}
    (h : height + 1 ≤ maxHeight → P [] ⟨tree, height + 1⟩ first) :
    (Grammar.node tree height position).Reads first P := by
  unfold Grammar.node
  split
  · exact fail
  · rename_i hle
    exact pure (h (Nat.not_lt.1 hle))

theorem tooDeep : (Grammar.tooDeep : Rule α).Reads first P := peek_bind fail

/-- What holds at the start of a list of statements and is kept by each of them holds at
its end. -/
theorem statements {inBlock : Bool} {statement : Rule (Tall Stmt)}
    {I : List Token → Array (Tall Stmt) → Token → Prop}
    (hstep : ∀ ts all first, I ts all first → endsStatements inBlock first.kind = false →
      statement.Reads first fun us s next => us ≠ [] ∧ I (ts ++ us) (all.push s) next)
    {ts : List Token} {all : Array (Tall Stmt)} (h : I ts all first) :
    (Grammar.statements inBlock statement all).Reads first fun us all next =>
      I (ts ++ us) all next ∧ endsStatements inBlock next.kind = true := by
  intro trail s hs hstop hfaults
  induction hn : s.left using Nat.strongRecOn generalizing s ts all first with
  | ind n ih =>
    cases hend : endsStatements inBlock s.next.kind with
    | true =>
      have hstmts := statements_end inBlock statement all trail hend
      unfold Outcome.state at hfaults ⊢
      unfold Outcome.result
      rw [hstmts] at hfaults ⊢
      obtain ⟨heq, hquiet⟩ := State.settle_quiet hfaults
      refine ⟨[], all, rfl, ?_, ?_, ?_⟩
      · dsimp only
        rw [heq]
        exact .refl hquiet
      · rw [List.append_nil, State.next_settle, hs]
        exact h
      · rw [State.next_settle]
        exact hend
    | false =>
      obtain ⟨-, stmt, s₁, hone, hquiet₁, hgo⟩ :=
        statements_round inBlock statement all trail hend hfaults
      have hrun := hstep ts all s.next (hs ▸ h) hend trail s rfl hstop
      unfold Outcome.state Outcome.result at hrun
      rw [hone] at hrun
      obtain ⟨us, stmt', hstmt, hp, hne, hI⟩ := hrun hquiet₁
      cases hstmt
      have hlt : s₁.left < s.left := hp.left_lt hne
      unfold Outcome.state at hfaults ⊢
      unfold Outcome.result
      rw [hgo hlt] at hfaults ⊢
      obtain ⟨vs, all', hall, hp', hI', hend'⟩ :=
        ih _ (hn ▸ hlt) hI s₁ rfl (hp.stop ▸ hstop) hfaults rfl
      refine ⟨us ++ vs, all', hall, hp.trans hp', ?_, hend'⟩
      rw [← List.append_assoc]
      exact hI'

end Reads

/-- If the rule ends behind the last token with nothing told, then there was nothing to
tell about the end of the stream. -/
def Settles (rule : Rule α) : Prop :=
  ∀ trail s, s.stop.token.kind = .endOfStream →
    (∀ t ∈ s.ahead, t.token.kind ≠ .endOfStream) → (rule trail s).state.faults = #[] →
    (rule trail s).state.ahead = [] → (rule trail s).state.stop.faults = #[]

namespace Settles

variable {rule : Rule α}

theorem map {g : α → β} (h : rule.Settles) : Settles (rule >>= fun a => Pure.pure (g a)) := by
  intro trail s hstop hahead
  change (Rule.bind rule _ trail s).state.faults = #[] →
    (Rule.bind rule _ trail s).state.ahead = [] →
    (Rule.bind rule _ trail s).state.stop.faults = #[]
  have hrule := h trail s hstop hahead
  unfold Rule.bind
  generalize rule trail s = r at hrule ⊢
  obtain ⟨⟨_ | a, s₁⟩, hr⟩ := r <;> exact hrule

theorem bind {Q : Token → List Token → α → Token → Prop} {f : α → Rule β}
    (h : ∀ first, rule.Reads first (Q first)) (hf : ∀ a, (f a).Settles) : Settles (rule >>= f) := by
  intro trail s hstop hahead
  change (Rule.bind rule f trail s).state.faults = #[] →
    (Rule.bind rule f trail s).state.ahead = [] →
    (Rule.bind rule f trail s).state.stop.faults = #[]
  have hrule := h s.next trail s rfl hstop
  unfold Rule.bind
  generalize rule trail s = r at hrule ⊢
  obtain ⟨⟨_ | a, s₁⟩, hr⟩ := r
  · intro hquiet
    obtain ⟨ts, a, ha, -⟩ := hrule hquiet
    contradiction
  · intro hquiet
    obtain ⟨ts, a', ha, hp, -⟩ := hrule ((f a trail s₁).2.1.quiet hquiet)
    refine hf a trail s₁ (hp.stop ▸ hstop) (fun t ht => hahead t ?_) hquiet
    rw [hp.ahead]
    exact List.mem_append_right _ ht

theorem require_end : (Rule.require .endOfStream).Settles := by
  intro trail s hstop hahead
  let wrong : Rule Token := Rule.fail s.settle.next.position .unexpectedSymbol
    [TokenKind.endOfStream.text, s.settle.next.text]
  have hrun : (Rule.require .endOfStream trail s).1 =
      ((if s.settle.next.kind = .endOfStream then Rule.take else wrong) trail s.settle).1 := rfl
  intro hquiet _
  unfold Outcome.state at hquiet ⊢
  rw [hrun] at hquiet ⊢
  split at hquiet
  · rename_i hkind
    have htake : s.settle.settle.faults = #[] := hquiet
    obtain ⟨heq, hquiet'⟩ := State.settle_quiet htake
    obtain ⟨heq', -⟩ := State.settle_quiet hquiet'
    rw [if_pos hkind]
    change s.settle.settle.drop.stop.faults = #[]
    rw [heq, heq']
    rw [heq'] at hkind
    cases hs : s.ahead with
    | nil =>
      have hstop' := (State.settle_of_nil hs).2.1
      rw [heq'] at hstop'
      change s.stop.faults = #[]
      rw [hstop']
    | cons t rest =>
      rw [State.next_of_cons hs] at hkind
      exact absurd hkind (hahead t (by simp [hs]))
  · simp [wrong, Rule.fail] at hquiet

theorem statements {inBlock : Bool} {statement : Rule (Tall Stmt)} {all : Array (Tall Stmt)}
    (h : ∀ first, statement.Reads first fun ts _ _ => ts ≠ []) :
    (Grammar.statements inBlock statement all).Settles := by
  intro trail s hstop hahead hquiet hnil
  induction hn : s.left using Nat.strongRecOn generalizing s all with
  | ind n ih =>
    cases hend : endsStatements inBlock s.next.kind with
    | true =>
      have hstmts := statements_end inBlock statement all trail hend
      unfold Outcome.state at hquiet hnil ⊢
      rw [hstmts] at hquiet hnil ⊢
      obtain ⟨heq, -⟩ := State.settle_quiet hquiet
      dsimp only at hnil ⊢
      rw [heq] at hnil ⊢
      rw [← heq, (State.settle_of_nil hnil).2.1]
    | false =>
      obtain ⟨-, stmt, s₁, hone, hquiet₁, hgo⟩ :=
        statements_round inBlock statement all trail hend hquiet
      have hrun := h s.next trail s rfl hstop
      unfold Outcome.state at hrun
      rw [hone] at hrun
      obtain ⟨us, -, -, hp, hne⟩ := hrun hquiet₁
      have hlt : s₁.left < s.left := hp.left_lt hne
      unfold Outcome.state at hquiet hnil ⊢
      rw [hgo hlt] at hquiet hnil ⊢
      refine ih _ (hn ▸ hlt) s₁ (hp.stop ▸ hstop) (fun t ht => hahead t ?_) hquiet hnil rfl
      rw [hp.ahead]
      exact List.mem_append_right _ ht

end Settles

/-- The rule makes `a` of tokens that are in order and leaves `rest`, telling nothing. -/
def Gives (rule : Rule α) (stop : Token) (ts : List Token) (a : α) (rest : List Token) : Prop :=
  ∀ trail, (rule trail (.plain ts stop)).1 = (some a, .plain rest stop)

namespace Gives

variable {rule : Rule α} {stop : Token} {ts us vs : List Token} {a : α} {b : β}

theorem pure : Gives (Pure.pure a : Rule α) stop ts a ts := fun _ => rfl

theorem eq_of_pure {a' : α} (h : Gives (Pure.pure a : Rule α) stop ts a' us) :
    a' = a ∧ us = ts := by
  have heq := h []
  change (some a, State.plain ts stop) = (some a', State.plain us stop) at heq
  obtain ⟨ha, hs⟩ := Prod.mk.inj heq
  have hahead : ts.map Grammar.plain = us.map Grammar.plain := congrArg State.ahead hs
  have hinj : ∀ t u, Grammar.plain t = Grammar.plain u → t = u :=
    fun _ _ htu => congrArg Scanned.token htu
  exact ⟨(Option.some.inj ha).symm, (List.map_inj_right hinj).1 hahead.symm⟩

theorem bind {f : α → Rule β} (h : rule.Gives stop ts a us) (hf : (f a).Gives stop us b vs) :
    Gives (rule >>= f) stop ts b vs := by
  intro trail
  change (Rule.bind rule f trail (.plain ts stop)).1 = _
  have hrule := h trail
  have hrest := hf trail
  unfold Rule.bind
  generalize rule trail (.plain ts stop) = r at hrule ⊢
  obtain ⟨r, hr⟩ := r
  subst hrule
  exact hrest

theorem assoc {γ : Type} {c : γ} {f : α → Rule β} {g : β → Rule γ}
    (h : Gives (rule >>= f >>= g) stop ts c vs) :
    Gives (rule >>= fun a => f a >>= g) stop ts c vs := by
  intro trail
  have hrun := h trail
  change (Rule.bind (Rule.bind rule f) g trail (.plain ts stop)).1 = _ at hrun
  change (Rule.bind rule (fun a => Rule.bind (f a) g) trail (.plain ts stop)).1 = _
  unfold Rule.bind at hrun ⊢
  generalize rule trail (.plain ts stop) = r at hrun ⊢
  obtain ⟨⟨_ | a, s₁⟩, hr⟩ := r
  · exact hrun
  · dsimp only [Outcome.since] at hrun ⊢
    generalize f a trail s₁ = r' at hrun ⊢
    obtain ⟨⟨_ | b, s₂⟩, hr'⟩ := r' <;> exact hrun

theorem peek : Rule.peek.Gives stop ts (ts.headD stop) ts := by
  intro trail
  simp [Rule.peek, Outcome.succeed]

theorem take {t : Token} : Rule.take.Gives stop (t :: ts) t ts := by
  intro trail
  simp [Rule.take, Outcome.succeed]

/-- The end of the stream stays the next token. -/
theorem take_end : Rule.take.Gives stop [] stop [] := fun _ => rfl

theorem within {name : String} (h : rule.Gives stop ts a us) :
    (Rule.within name rule).Gives stop ts a us := fun trail => h (name :: trail)

theorem require {kind : TokenKind} {t : Token} (h : t.kind = kind) :
    (Rule.require kind).Gives stop (t :: ts) t ts := by
  refine peek.bind ?_
  rw [List.headD_cons, if_pos h]
  exact take

theorem accept {kind : TokenKind} {t : Token} (h : t.kind = kind) :
    (Rule.accept kind).Gives stop (t :: ts) true ts := by
  refine peek.bind ?_
  rw [List.headD_cons, if_pos h]
  exact take.bind pure

theorem accept_not {kind : TokenKind} (h : (ts.headD stop).kind ≠ kind) :
    (Rule.accept kind).Gives stop ts false ts := by
  refine peek.bind ?_
  rw [if_neg h]
  exact pure

theorem node {tree : α} {height childHeight : Nat} {position : Position}
    (h : height = childHeight + 1) (hle : height ≤ maxHeight) :
    (Grammar.node tree childHeight position).Gives stop ts ⟨tree, height⟩ ts := by
  subst h
  unfold Grammar.node
  rw [if_neg (Nat.not_lt.2 hle)]
  exact pure

theorem chain_stop {step : α → Token → Option (Rule α)} (h : step a (ts.headD stop) = none) :
    (Rule.chain step a).Gives stop ts a ts := by
  intro trail
  rw [Rule.chain_stop trail (.inr (by rw [State.next_plain, h])), State.settle_plain]

theorem chain_go {step : α → Token → Option (Rule α)} {t : Token} {b c : α}
    (h : step a t = some rule) (hrule : rule.Gives stop ts b us)
    (hrest : (Rule.chain step b).Gives stop us c vs) :
    (Rule.chain step a).Gives stop (t :: ts) c vs := by
  intro trail
  have hstep : step a (State.plain (t :: ts) stop).next = some rule := by simpa using h
  rw [Rule.chain_go trail (by simp [State.plain]) hstep]
  exact take.bind (hrule.bind hrest) trail

theorem statements_end {inBlock : Bool} {statement : Rule (Tall Stmt)} {all : Array (Tall Stmt)}
    (h : endsStatements inBlock (ts.headD stop).kind = true) :
    (Grammar.statements inBlock statement all).Gives stop ts all ts := by
  intro trail
  rw [Rule.statements_end inBlock statement all trail (by rw [State.next_plain, h]),
    State.settle_plain]

theorem statements_go {inBlock : Bool} {statement : Rule (Tall Stmt)}
    {all all' : Array (Tall Stmt)} {t : Token} {stmt : Tall Stmt}
    (h : endsStatements inBlock t.kind = false)
    (hs : statement.Gives stop (t :: ts ++ us) stmt us)
    (hrest : (Grammar.statements inBlock statement (all.push stmt)).Gives stop us all' vs) :
    (Grammar.statements inBlock statement all).Gives stop (t :: ts ++ us) all' vs := by
  intro trail
  have hone := hs trail
  rw [← State.settle_plain] at hone
  have hends : endsStatements inBlock (State.plain (t :: ts ++ us) stop).next.kind = false := by
    rw [State.next_plain, List.cons_append, List.headD_cons, h]
  have hlt : (State.plain us stop).left < (State.plain (t :: ts ++ us) stop).left := by
    simp only [State.plain, List.length_map, List.length_append, List.length_cons]
    omega
  rw [Rule.statements_go inBlock statement all trail hends hone hlt]
  exact hrest trail

end Gives

end Rule

end StackScript.Grammar
