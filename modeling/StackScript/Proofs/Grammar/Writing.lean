import StackScript.Proofs.Grammar.Acceptance
import StackScript.Proofs.Token.Literals
import StackScript.Proofs.Tree.Places
import StackScript.Proofs.Tree.Printing

/-!
What is written of a tree reads back as that tree, apart from the places of its nodes.
The tokens of the written text are not those of the text that the tree came from, but
they derive the same phrase: each production writes its own words between the texts of
its parts, and a part is followed by nothing that its last word could go on with.
-/

namespace StackScript

namespace Grammar

/-- The tokens derive the phrase, apart from places. -/
def Phrase.Respelled (n : Nat) (ts : List Token) : Phrase → Prop
  | statement s => ∃ s', Derives n ts (.statement s') ∧ s'.unplaced = s.unplaced
  | statements ss => ∃ ss', Derives n ts (.statements ss') ∧ stmtsUnplaced ss' = stmtsUnplaced ss
  | expression e => ∃ e', Derives n ts (.expression e') ∧ e'.unplaced = e.unplaced
  | operand rank e => ∃ e', Derives n ts (.operand rank e') ∧ e'.unplaced = e.unplaced
  | callable e => ∃ e', Derives n ts (.callable e') ∧ e'.unplaced = e.unplaced
  | arguments es => ∃ es', Derives n ts (.arguments es') ∧ exprsUnplaced es' = exprsUnplaced es
  | series es => ∃ es', Derives n ts (.series es') ∧ exprsUnplaced es' = exprsUnplaced es

def Phrase.chars (indent : Nat) : Phrase → List Char
  | statement s => s.chars indent
  | statements ss => stmtsChars indent ss
  | expression e | operand _ e | callable e => e.chars indent
  | arguments es | series es => exprsChars indent es

/-- What may follow the text of a phrase. -/
def Phrase.Ends : Phrase → List Char → Prop
  | statement _ | statements _ => Anything
  | expression _ | operand _ _ | arguments _ | series _ => EndsNumber
  | callable _ => EndsWord

/-- Written with any margin, the phrase is spelled anew. -/
def Phrase.Written (n : Nat) (p : Phrase) : Prop :=
  ∀ indent, Spells p.Ends (p.chars indent) fun ts => p.Respelled n ts

section Gaps

variable {ends : List Char → Prop} {cs : List Char} {P : List Token → Prop}

theorem isSpace_of_mem_margin {indent : Nat} {c : Char} (h : c ∈ marginChars indent) :
    Gap.isSpace c = true := by
  rw [marginChars, Text.margin, String.toList_ofList] at h
  rw [List.eq_of_mem_replicate h]
  rfl

theorem spells_margin (h : Spells ends cs P) (indent : Nat) :
    Spells ends (marginChars indent ++ cs) P :=
  h.space fun _ hc => isSpace_of_mem_margin hc

theorem spells_blank (h : Spells ends cs P) : Spells ends ([' '] ++ cs) P :=
  h.space fun _ hc => List.mem_singleton.1 hc ▸ rfl

theorem spells_break (h : Spells ends cs P) : Spells ends (['\n'] ++ cs) P :=
  h.space fun _ hc => List.mem_singleton.1 hc ▸ rfl

end Gaps

section Signs

variable {ends : List Char → Prop} {cs : List Char} {P : List Token → Prop}

/-- What ends before anything ends before this. -/
theorem spells_anywhere (h : Spells Anything cs P) : Spells ends cs P :=
  h.within fun _ _ => trivial

/-- A sign behind a text that it ends. -/
theorem spells_closed (h : Spells ends cs P) (sign : Char) (kind : TokenKind)
    (hsign : (sign, kind) ∈ signs) (hends : ∀ rest, ends (sign :: rest)) :
    Spells Anything (cs ++ [sign]) fun ts => ∃ us t, ts = us ++ [t] ∧ P us ∧ t.kind = kind := by
  refine (h.append (Spells.sign hsign) fun rest _ => hends rest).mono ?_
  rintro _ ⟨us, _, rfl, hus, t, rfl, ht⟩
  exact ⟨us, t, rfl, hus, ht⟩

/-- A text between two signs. -/
theorem spells_enclosed (h : Spells ends cs P) (opening closing : Char × TokenKind)
    (ho : opening ∈ signs) (hc : closing ∈ signs) (hends : ∀ rest, ends (closing.1 :: rest)) :
    Spells Anything ([opening.1] ++ (cs ++ [closing.1])) fun ts =>
      ∃ o us c, ts = o :: us ++ [c] ∧ o.kind = opening.2 ∧ P us ∧ c.kind = closing.2 := by
  have hopening : Spells Anything [opening.1] (IsOne opening.2) := .sign ho
  refine (hopening.append (spells_closed h closing.1 closing.2 hc hends) fun _ _ => trivial).mono ?_
  rintro _ ⟨_, _, rfl, ⟨o, rfl, ho⟩, us, c, rfl, hus, hc⟩
  exact ⟨o, us, c, rfl, ho, hus, hc⟩

end Signs

section Operators

def connectiveChars : Connective → List Char
  | .logical op => op.symbol.toList
  | .binary op => op.symbol.toList

/-- An operator between two operands stands between spaces. -/
theorem spells_connective (c : Connective) :
    Spells (fun rest => rest.head? = some ' ') (connectiveChars c) (IsOne c.kind) := by
  have hopen (first second : Char) (kind : TokenKind) (h : (first, second, kind) ∈ openSigns)
      (hne : ' ' ≠ second) : Spells (fun rest => rest.head? = some ' ') [first] (IsOne kind) :=
    (Spells.openSign h).within fun rest hrest => by
      rw [hrest]
      exact fun heq => hne (Option.some.inj heq)
  obtain op | op := c
  · cases op with
    | and | or => exact .doubleSign (by decide)
  · cases op with
    | add | sub | mul | mod => exact .sign (by decide)
    | div => exact .slash
    | less => exact hopen '<' '=' .less (by decide) (by decide)
    | greater => exact hopen '>' '=' .greater (by decide) (by decide)
    | bitAnd => exact hopen '&' '&' .bitAnd (by decide) (by decide)
    | bitOr => exact hopen '|' '|' .bitOr (by decide) (by decide)
    | equal | notEqual | lessEqual | greaterEqual => exact .doubleSign (by decide)

/-- A prefix operator stands directly in front of its operand. -/
theorem spells_prefixed (op : UnaryOp) :
    Spells (fun rest => rest.head? ≠ some '=') op.symbol.toList (IsOne (prefixKind op)) := by
  cases op with
  | negate | bitNot => exact .sign (by decide)
  | not => exact .openSign (by decide)

theorem chars_join (c : Connective) (l r : Expr) (p : Position) (indent : Nat) :
    (c.join l r p).chars indent =
      l.chars indent ++ ([' '] ++ (connectiveChars c ++ ([' '] ++ r.chars indent))) := by
  obtain op | op := c
  · exact Expr.chars_logical indent p op l r
  · exact Expr.chars_binary indent p op l r

theorem unplaced_join (c : Connective) (l r : Expr) (p : Position) :
    (c.join l r p).unplaced = c.join l.unplaced r.unplaced default := by
  obtain op | op := c <;> rfl

end Operators

namespace Phrase.Written

variable {n : Nat} {p : Position}

section Expressions

variable {e e' : Expr} {es : List Expr} {s : Stmt}

theorem expression (h : (operand loosest e).Written n) : (Phrase.expression e).Written (n + 1) :=
  fun indent => (h indent).mono fun _ ⟨e', hderives, heq⟩ => ⟨e', .expression hderives, heq⟩

theorem tighter {rank : Nat} (h : (operand rank e).Written n) :
    (operand (rank + 1) e).Written n :=
  fun indent => (h indent).mono fun _ ⟨e', hderives, heq⟩ => ⟨e', .tighter hderives, heq⟩

theorem connected {c : Connective} {l r : Expr} (hl : (operand c.rank l).Written n)
    (hr : (operand (c.rank - 1) r).Written n) : (operand c.rank (c.join l r p)).Written n := by
  intro indent
  have hright := (spells_connective c).append (spells_blank (hr indent)) fun rest _ => rfl
  have hall := (hl indent).append (spells_blank hright) fun rest _ => rfl
  rw [chars, chars_join]
  refine hall.mono ?_
  rintro _ ⟨ts, _, rfl, ⟨l', hl', heql⟩, _, us, rfl, ⟨t, rfl, ht⟩, r', hr', heqr⟩
  refine ⟨c.join l' r' t.position, .connected hl' ht hr', ?_⟩
  rw [unplaced_join, unplaced_join, heql, heqr]

/-- No expression begins with a sign that a prefix operator could go on with. -/
theorem head?_ne {rank : Nat} (h : (operand rank e).Written n) (indent : Nat) {rest : List Char}
    (hrest : EndsNumber rest) : (e.chars indent ++ rest).head? ≠ some '=' := by
  refine (h indent).head?_ne hrest ?_ ?_
  · intro c hc ts hts
    obtain ⟨e', hderives, -⟩ := hts
    obtain ⟨t, us, heq, hstarts⟩ := hderives.starts rfl
    obtain ⟨rfl, -⟩ := List.cons.inj heq
    rcases Cursor.kind_nextToken_of_equals hc with hkind | hkind <;>
      simp [Phrase.starts, startsExpression, hkind] at hstarts
  · intro hnil
    obtain ⟨e', hderives, -⟩ := hnil
    exact hderives.ne_nil rfl rfl

theorem prefixed {op : UnaryOp} (h : (operand 0 e).Written n) :
    (operand 0 (.unary op e p)).Written (n + 1) := by
  intro indent
  have hall := (spells_prefixed op).append (h indent) fun rest hrest => h.head?_ne indent hrest
  rw [chars, Expr.chars_unary]
  refine hall.mono ?_
  rintro _ ⟨_, ts, rfl, ⟨t, rfl, ht⟩, e', he', heq⟩
  exact ⟨.unary op e' t.position, .prefixed ht he', by simp only [Expr.unplaced, heq]⟩

theorem constant {t : Token} {v : Value} (ht : constant? t = some v) (hproper : t.Proper) :
    (operand 0 (.literal v p)).Written n := by
  intro indent
  rw [chars, Expr.chars_literal]
  have hword (kind : TokenKind) {w : Value} (hkind : kind ∈ TokenKind.keywords)
      (hw : ∀ t : Token, t.kind = kind → constant? t = some w) :
      Spells EndsNumber kind.text.toList fun ts => (operand 0 (.literal w p)).Respelled n ts := by
    refine ((Spells.keyword kind hkind).within fun _ => EndsNumber.word).mono ?_
    rintro _ ⟨u, rfl, hu⟩
    exact ⟨.literal w u.position, .constant (hw u hu), rfl⟩
  have hliteral {kind : TokenKind} {w : Value} (hkind : kind = .int ∨ kind = .number ∨
      kind = .string) (hw : Spells EndsNumber w.literalText.toList (IsLiteral kind w)) :
      Spells EndsNumber w.literalText.toList fun ts =>
        (operand 0 (.literal w p)).Respelled n ts := by
    refine hw.mono ?_
    rintro _ ⟨u, rfl, hu, hvalue⟩
    refine ⟨.literal w u.position, .constant ?_, rfl⟩
    rcases hkind with rfl | rfl | rfl <;> simp only [constant?, hu, hvalue]
  have hspells := hproper.literal v
  unfold constant? at ht
  split at ht
  case h_1 =>
    cases ht
    exact hword .keywordTrue (by decide) fun t ht => by simp only [constant?, ht]
  case h_2 =>
    cases ht
    exact hword .keywordFalse (by decide) fun t ht => by simp only [constant?, ht]
  case h_3 =>
    cases ht
    exact hword .keywordNull (by decide) fun t ht => by simp only [constant?, ht]
  case h_4 hkind =>
    rw [hkind] at hspells
    cases v with
    | int i =>
      obtain ⟨k, hk, rfl⟩ := hspells ht
      exact hliteral (.inl rfl) (.int hk)
    | _ => exact (hspells ht).elim
  case h_5 hkind =>
    rw [hkind] at hspells
    cases v with
    | number x =>
      obtain ⟨hfinite, hsign⟩ := hspells ht
      exact hliteral (.inr (.inl rfl)) (.number hfinite hsign)
    | _ => exact (hspells ht).elim
  case h_6 hkind =>
    rw [hkind] at hspells
    cases v with
    | string text => exact hliteral (.inr (.inr rfl)) (.string text)
    | _ => exact (hspells ht).elim
  case h_7 => cases ht

theorem group (h : (Phrase.expression e).Written n) : (operand 0 (.group e p)).Written n := by
  intro indent
  rw [chars, Expr.chars_group]
  refine (spells_anywhere (spells_enclosed (h indent) ('(', .openParen) (')', .closeParen)
    (by decide) (by decide) fun _ => rfl)).mono ?_
  rintro _ ⟨o, ts, c, rfl, ho, ⟨e', he', heq⟩, hc⟩
  exact ⟨.group e' o.position, .group ho he' hc, by simp only [Expr.unplaced, heq]⟩

theorem called (h : (callable e).Written n) : (operand 0 e).Written n := fun indent =>
  ((h indent).within fun _ => EndsNumber.word).mono
    fun _ ⟨e', hderives, heq⟩ => ⟨e', .called hderives, heq⟩

theorem name {text : String} (h : IsName text) : (callable (.name text p)).Written n := by
  intro indent
  rw [chars, Expr.chars_name]
  refine (Spells.name h).mono ?_
  rintro _ ⟨t, rfl, ht, rfl⟩
  exact ⟨.name t.lexeme t.position, .name ht, rfl⟩

theorem function (h : (Phrase.statement s).Written n) :
    (callable (.function s p)).Written n := by
  intro indent
  obtain ⟨indent', hchars⟩ := Expr.chars_function indent p s
  have hnothing : Spells Anything [] fun ts => ts = [] := .nothing rfl
  have hparens := spells_enclosed hnothing ('(', .openParen) (')', .closeParen) (by decide)
    (by decide) fun _ => trivial
  have hrest := hparens.append (spells_blank (h indent')) fun _ _ => trivial
  have hall := (Spells.keyword .keywordFun (by decide)).append hrest fun _ _ => rfl
  rw [chars, hchars]
  refine (spells_anywhere hall).mono ?_
  rintro _ ⟨_, _, rfl, ⟨w, rfl, hw⟩, _, ts, rfl, ⟨o, _, c, rfl, ho, rfl, hc⟩, s', hs', heq⟩
  exact ⟨.function s' w.position, .function hw ho hc hs', by simp only [Expr.unplaced, heq]⟩

theorem call (h : (callable e).Written n) (hes : (Phrase.arguments es).Written n) :
    (callable (.call e es p)).Written n := by
  intro indent
  have hinner := spells_enclosed (hes indent) ('(', .openParen) (')', .closeParen)
    (by decide) (by decide) fun _ => rfl
  rw [chars, Expr.chars_call]
  refine (spells_anywhere ((h indent).append hinner fun _ _ => rfl)).mono ?_
  rintro _ ⟨ts, _, rfl, ⟨e', he', heq⟩, o, us, c, rfl, ho, ⟨es', hes', heqs⟩, hc⟩
  refine ⟨.call e' es' e'.position, ?_, by simp only [Expr.unplaced, heq, heqs]⟩
  simpa using Derives.call he' ho hes' hc

theorem index (h : (callable e).Written n) (hes : (Phrase.arguments es).Written n) :
    (callable (.index e es p)).Written n := by
  intro indent
  have hinner := spells_enclosed (hes indent) ('[', .openBracket) (']', .closeBracket)
    (by decide) (by decide) fun _ => rfl
  rw [chars, Expr.chars_index]
  refine (spells_anywhere ((h indent).append hinner fun _ _ => rfl)).mono ?_
  rintro _ ⟨ts, _, rfl, ⟨e', he', heq⟩, o, us, c, rfl, ho, ⟨es', hes', heqs⟩, hc⟩
  refine ⟨.index e' es' e'.position, ?_, by simp only [Expr.unplaced, heq, heqs]⟩
  simpa using Derives.index he' ho hes' hc

theorem member {text : String} {q : Position} (h : (callable e).Written n) (hname : IsName text) :
    (callable (.member e (.name text q) p)).Written n := by
  intro indent
  have hdot : Spells (fun rest => rest.head? ≠ some '.') ['.'] (IsOne .dot) :=
    .openSign (by decide)
  have hword := hdot.append (Spells.name hname) fun rest _ => by
    obtain ⟨first, more, rfl, hfirst, -⟩ := hname
    rw [String.toList_ofList]
    rintro ⟨⟩
    contradiction
  rw [chars, Expr.chars_member, Expr.chars_name]
  refine ((h indent).append hword fun _ _ => rfl).mono ?_
  rintro _ ⟨ts, _, rfl, ⟨e', he', heq⟩, _, _, rfl, ⟨d, rfl, hd⟩, t, rfl, ht, rfl⟩
  refine ⟨.member e' (.name t.lexeme t.position) e'.position, .member he' hd ht, ?_⟩
  simp only [Expr.unplaced, heq]

theorem noArguments : (Phrase.arguments []).Written n := fun _ => .nothing ⟨[], .noArguments, rfl⟩

theorem someArguments (h : (series es).Written n) : (Phrase.arguments es).Written n :=
  fun indent => (h indent).mono fun _ ⟨es', hderives, heq⟩ => ⟨es', .someArguments hderives, heq⟩

theorem one (h : (Phrase.expression e).Written n) : (series [e]).Written n := by
  intro indent
  rw [chars, exprsChars_singleton]
  refine (h indent).mono ?_
  rintro ts ⟨e', he', heq⟩
  exact ⟨[e'], .one he', by simp only [exprsUnplaced, heq]⟩

theorem more (hes : (series es).Written n) (hne : es ≠ [])
    (h : (Phrase.expression e).Written n) : (series (es ++ [e])).Written n := by
  intro indent
  have hcomma : Spells Anything [','] (IsOne .comma) := .sign (by decide)
  have hrest := hcomma.append (spells_blank (h indent)) fun _ _ => trivial
  rw [chars, exprsChars_append_singleton indent hne]
  refine ((hes indent).append hrest fun _ _ => rfl).mono ?_
  rintro _ ⟨ts, _, rfl, ⟨es', hes', heqs⟩, _, us, rfl, ⟨c, rfl, hc⟩, e', he', heq⟩
  refine ⟨es' ++ [e'], .more hes' hc he', ?_⟩
  simp only [exprsUnplaced_eq_map] at heqs ⊢
  rw [List.map_append, List.map_append, heqs, List.map_singleton, List.map_singleton, heq]

end Expressions

section Statements

variable {e e' : Expr} {s s' : Stmt} {ss : List Stmt}

theorem empty : (Phrase.statement (.empty p)).Written (n + 1) := by
  intro indent
  have hsign : Spells Anything [';'] (IsOne .semicolon) := .sign (by decide)
  rw [chars, Stmt.chars_empty]
  refine hsign.mono ?_
  rintro _ ⟨t, rfl, ht⟩
  exact ⟨.empty t.position, .empty ht, rfl⟩

theorem block (h : (Phrase.statements ss).Written n) :
    (Phrase.statement (.block ss p)).Written (n + 1) := by
  intro indent
  have hmargin : Spells Anything (marginChars indent) fun ts => ts = [] := by
    have hnothing : Spells Anything [] fun ts => ts = [] := .nothing rfl
    simpa using spells_margin hnothing indent
  have hbody := spells_break ((h (indent + 1)).append hmargin fun _ _ => trivial)
  rw [chars, Stmt.chars_block]
  have hall := spells_enclosed hbody ('{', .openBrace) ('}', .closeBrace) (by decide) (by decide)
    fun _ => trivial
  simp only [List.append_assoc] at hall
  refine hall.mono ?_
  rintro _ ⟨o, _, c, rfl, ho, ⟨ts, _, rfl, ⟨ss', hss', heq⟩, rfl⟩, hc⟩
  rw [List.append_nil]
  exact ⟨.block ss' o.position, .block ho hss' hc, by simp only [Stmt.unplaced, heq]⟩

/-- An expression up to its semicolon. -/
theorem closed (h : (Phrase.expression e).Written n) (indent : Nat) :
    Spells Anything (e.chars indent ++ [';']) fun ts =>
      ∃ us stop e', ts = us ++ [stop] ∧ Derives n us (.expression e') ∧
        e'.unplaced = e.unplaced ∧ stop.kind = .semicolon := by
  refine (spells_closed (h indent) ';' .semicolon (by decide) fun _ => rfl).mono ?_
  rintro _ ⟨us, stop, rfl, ⟨e', he', heq⟩, hstop⟩
  exact ⟨us, stop, e', rfl, he', heq, hstop⟩

/-- What is given to a variable, from the sign in front of it. -/
theorem source (h : (Phrase.expression e).Written n) (indent : Nat) :
    Spells Anything ([' '] ++ (['='] ++ ([' '] ++ (e.chars indent ++ [';'])))) fun ts =>
      ∃ a us stop e', ts = a :: us ++ [stop] ∧ a.kind = .assign ∧
        Derives n us (.expression e') ∧ e'.unplaced = e.unplaced ∧ stop.kind = .semicolon := by
  have hsign : Spells (fun rest => rest.head? ≠ some '=') ['='] (IsOne .assign) :=
    .openSign (by decide)
  have hvalue := hsign.append (spells_blank (h.closed indent)) fun _ _ => by simp
  refine (spells_blank hvalue).mono ?_
  rintro _ ⟨_, _, rfl, ⟨a, rfl, ha⟩, us, stop, e', rfl, he', heq, hstop⟩
  exact ⟨a, us, stop, e', rfl, ha, he', heq, hstop⟩

theorem declare {name : String} (hname : IsName name) (h : (Phrase.expression e).Written n) :
    (Phrase.statement (.declare name e p)).Written (n + 1) := by
  intro indent
  have hnamed := spells_blank ((Spells.name hname).append (h.source indent) fun _ _ => rfl)
  rw [chars, Stmt.chars_declare]
  refine ((Spells.keyword .keywordVar (by decide)).append hnamed fun _ _ => rfl).mono ?_
  rintro _ ⟨_, _, rfl, ⟨v, rfl, hv⟩, _, _, rfl, ⟨t, rfl, ht, rfl⟩, a, us, stop, e', rfl, ha, he',
    heq, hstop⟩
  exact ⟨.declare t.lexeme e' v.position, .declare hv ht ha he' hstop,
    by simp only [Stmt.unplaced, heq]⟩

theorem returnNull : (Phrase.statement (.returnNull p)).Written (n + 1) := by
  intro indent
  rw [chars, Stmt.chars_returnNull]
  refine (spells_closed (Spells.keyword .keywordReturn (by decide)) ';' .semicolon (by decide)
    fun _ => rfl).mono ?_
  rintro _ ⟨_, t, rfl, ⟨w, rfl, hw⟩, ht⟩
  exact ⟨.returnNull w.position, .returnNull hw ht, rfl⟩

theorem returnValue (h : (Phrase.expression e).Written n) :
    (Phrase.statement (.returnValue e p)).Written (n + 1) := by
  intro indent
  have hvalue := spells_blank (h.closed indent)
  rw [chars, Stmt.chars_returnValue]
  refine ((Spells.keyword .keywordReturn (by decide)).append hvalue fun _ _ => rfl).mono ?_
  rintro _ ⟨_, _, rfl, ⟨w, rfl, hw⟩, us, stop, e', rfl, he', heq, hstop⟩
  exact ⟨.returnValue e' w.position, .returnValue hw he' hstop,
    by simp only [Stmt.unplaced, heq]⟩

/-- The body of an `if` or `while`, on a line of its own. -/
theorem bodyChars (h : (Phrase.statement s).Written n) (indent : Nat) :
    Spells Anything (s.bodyChars indent) fun ts => (Phrase.statement s).Respelled n ts :=
  spells_break (spells_margin (h _) _)

/-- The condition of an `if` or `while` with its word, and what stands behind it. -/
theorem condition (h : (Phrase.expression e).Written n) (word : TokenKind)
    (hword : word ∈ TokenKind.keywords) (indent : Nat) {cs : List Char}
    {P : List Token → Prop} (hcs : Spells Anything cs P) :
    Spells Anything (word.text.toList ++ (['('] ++ (e.chars indent ++ ([')'] ++ cs)))) fun ts =>
      ∃ w o us c vs e', ts = w :: o :: us ++ c :: vs ∧ w.kind = word ∧ o.kind = .openParen ∧
        Derives n us (.expression e') ∧ e'.unplaced = e.unplaced ∧ c.kind = .closeParen ∧
        P vs := by
  have hparens := spells_enclosed (h indent) ('(', .openParen) (')', .closeParen) (by decide)
    (by decide) fun _ => rfl
  have hrest := hparens.append hcs fun _ _ => trivial
  have hall := (Spells.keyword word hword).append hrest fun _ _ => rfl
  simp only [List.append_assoc] at hall
  refine hall.mono ?_
  rintro _ ⟨_, _, rfl, ⟨w, rfl, hw⟩, _, vs, rfl, ⟨o, us, c, rfl, ho, ⟨e', he', heq⟩, hc⟩, hvs⟩
  exact ⟨w, o, us, c, vs, e', by simp, hw, ho, he', heq, hc, hvs⟩

theorem ifThen (h : (Phrase.expression e).Written n) (hs : (Phrase.statement s).Written n) :
    (Phrase.statement (.ifThen e s p)).Written (n + 1) := by
  intro indent
  rw [chars, Stmt.chars_ifThen]
  refine (h.condition .keywordIf (by decide) indent (hs.bodyChars indent)).mono ?_
  rintro _ ⟨w, o, us, c, vs, e', rfl, hw, ho, he', heq, hc, s', hs', heqs⟩
  exact ⟨.ifThen e' s' w.position, .ifThen hw ho he' hc hs',
    by simp only [Stmt.unplaced, heq, heqs]⟩

theorem ifElse (h : (Phrase.expression e).Written n) (hs : (Phrase.statement s).Written n)
    (hclosed : s.endsOpen = false) (hs' : (Phrase.statement s').Written n) :
    (Phrase.statement (.ifElse e s s' p)).Written (n + 1) := by
  intro indent
  have helse := (Spells.keyword .keywordElse (by decide)).append (hs'.bodyChars indent)
    fun _ _ => rfl
  have hbody := (hs.bodyChars indent).append (spells_break (spells_margin helse indent))
    fun _ _ => trivial
  rw [chars, Stmt.chars_ifElse]
  refine (h.condition .keywordIf (by decide) indent hbody).mono ?_
  rintro _ ⟨w, o, us, c, _, e', rfl, hw, ho, he', heq, hc, vs, _, rfl, ⟨t, ht, heqs⟩, _, xs, rfl,
    ⟨l, rfl, hl⟩, t', ht', heqs'⟩
  have hopen : t.endsOpen = false := by
    rw [← t.endsOpen_unplaced, heqs, s.endsOpen_unplaced, hclosed]
  refine ⟨.ifElse e' t t' w.position, ?_, by simp only [Stmt.unplaced, heq, heqs, heqs']⟩
  simpa using Derives.ifElse hw ho he' hc ht hopen hl ht'

theorem whileDo (h : (Phrase.expression e).Written n) (hs : (Phrase.statement s).Written n) :
    (Phrase.statement (.whileDo e s p)).Written (n + 1) := by
  intro indent
  rw [chars, Stmt.chars_whileDo]
  refine (h.condition .keywordWhile (by decide) indent (hs.bodyChars indent)).mono ?_
  rintro _ ⟨w, o, us, c, vs, e', rfl, hw, ho, he', heq, hc, s', hs', heqs⟩
  exact ⟨.whileDo e' s' w.position, .whileDo hw ho he' hc hs',
    by simp only [Stmt.unplaced, heq, heqs]⟩

theorem value (h : (Phrase.expression e).Written n) :
    (Phrase.statement (.expression e p)).Written (n + 1) := by
  intro indent
  rw [chars, Stmt.chars_expression]
  refine (h.closed indent).mono ?_
  rintro _ ⟨us, stop, e', rfl, he', heq, hstop⟩
  cases us with
  | nil => exact absurd rfl (he'.ne_nil rfl)
  | cons first us =>
    exact ⟨.expression e' first.position, .value he' hstop, by simp only [Stmt.unplaced, heq]⟩

theorem assign (h : (Phrase.expression e).Written n) (h' : (Phrase.expression e').Written n) :
    (Phrase.statement (.assign e e' p)).Written (n + 1) := by
  intro indent
  rw [chars, Stmt.chars_assign]
  refine ((h indent).append (h'.source indent) fun _ _ => rfl).mono ?_
  rintro _ ⟨ts, _, rfl, ⟨t, ht, heq⟩, a, us, stop, v, rfl, ha, hv, heqv, hstop⟩
  cases ts with
  | nil => exact absurd rfl (ht.ne_nil rfl)
  | cons first ts =>
    refine ⟨.assign t v first.position, ?_, by simp only [Stmt.unplaced, heq, heqv]⟩
    simpa using Derives.assign ht ha hv hstop

theorem none : (Phrase.statements []).Written n := by
  intro indent
  rw [chars, stmtsChars_nil]
  exact .nothing ⟨[], .none, rfl⟩

theorem cons (h : (Phrase.statement s).Written n) (hss : (Phrase.statements ss).Written n) :
    (Phrase.statements (s :: ss)).Written n := by
  intro indent
  have hrest := (h indent).append (spells_break (hss indent)) fun _ _ => trivial
  rw [chars, stmtsChars_cons]
  refine (spells_margin hrest indent).mono ?_
  rintro _ ⟨ts, us, rfl, ⟨s', hs', heq⟩, ss', hss', heqs⟩
  exact ⟨s' :: ss', .cons hs' hss', by simp only [stmtsUnplaced, heq, heqs]⟩

end Statements

end Phrase.Written

theorem Derives.series_ne_nil {n : Nat} {ts : List Token} {es : List Expr}
    (h : Derives n ts (.series es)) : es ≠ [] := by
  cases h with
  | one _ => exact List.cons_ne_nil _ _
  | more _ _ _ => simp

/-- What a derivation spells is written as what it spells. -/
theorem Derives.written {n : Nat} {ts : List Token} {p : Phrase} (h : Derives n ts p)
    (hts : ∀ t ∈ ts, t.Proper) : p.Written n := by
  induction h with
  | empty _ => exact .empty
  | block _ _ _ ih => exact .block (ih (by simp_all))
  | declare _ hn _ _ _ ih => exact .declare ((hts _ (by simp)).name hn) (ih (by simp_all))
  | returnNull _ _ => exact .returnNull
  | returnValue _ _ _ ih => exact .returnValue (ih (by simp_all))
  | ifThen _ _ _ _ _ iht ihb => exact .ifThen (iht (by simp_all)) (ihb (by simp_all))
  | ifElse _ _ _ _ _ hclosed _ _ iht ihb iho =>
    exact .ifElse (iht (by simp_all)) (ihb (by simp_all)) hclosed (iho (by simp_all))
  | whileDo _ _ _ _ _ iht ihb => exact .whileDo (iht (by simp_all)) (ihb (by simp_all))
  | value _ _ ih => exact .value (ih (by simp_all))
  | assign _ _ _ _ iht ihs => exact .assign (iht (by simp_all)) (ihs (by simp_all))
  | none => exact .none
  | cons _ _ ihh iht => exact .cons (ihh (by simp_all)) (iht (by simp_all))
  | expression _ ih => exact .expression (ih hts)
  | tighter _ ih => exact .tighter (ih hts)
  | connected _ _ _ ihl ihr => exact .connected (ihl (by simp_all)) (ihr (by simp_all))
  | prefixed _ _ ih => exact .prefixed (ih (by simp_all))
  | constant ht => exact .constant ht (hts _ (by simp))
  | group _ _ _ ih => exact .group (ih (by simp_all))
  | called _ ih => exact .called (ih hts)
  | name ht => exact .name ((hts _ (by simp)).name ht)
  | function _ _ _ _ ih => exact .function (ih (by simp_all))
  | call _ _ _ _ ihc ihi => exact .call (ihc (by simp_all)) (ihi (by simp_all))
  | index _ _ _ _ ihc ihi => exact .index (ihc (by simp_all)) (ihi (by simp_all))
  | member _ _ hn ih => exact .member (ih (by simp_all)) ((hts _ (by simp)).name hn)
  | noArguments => exact .noArguments
  | someArguments _ ih => exact .someArguments (ih hts)
  | one _ ih => exact .one (ih hts)
  | more hbefore _ _ ihb ihl =>
    exact .more (ihb (by simp_all)) hbefore.series_ne_nil (ihl (by simp_all))

/-- A text that spells something has nothing wrong with its tokens. -/
theorem words_of_spells {ends : List Char → Prop} {P : List Token → Prop} (file text : String)
    (h : Spells ends text.toList P) (hends : ends []) :
    (TokenStream.ofText file text).faults = [] ∧ P (TokenStream.ofText file text).words := by
  obtain ⟨ts, hts, hahead, hstop⟩ := h.ofText hends file
  obtain ⟨hquiet, hwords⟩ := TokenStream.quiet_of_ahead hahead hstop
  rw [hwords]
  exact ⟨hquiet, hts⟩

theorem words_proper (file text : String) :
    ∀ t ∈ (TokenStream.ofText file text).words, t.Proper := by
  intro t ht
  obtain ⟨scanned, hscanned, rfl⟩ := List.mem_map.1 ht
  exact TokenStream.ofText_proper file text scanned hscanned

end Grammar

open Grammar

variable {file text : String}

/-- The text of a script is read as the script, apart from the places of its nodes. -/
theorem Script.reads_text {script : Script} (h : (Script.read file text).result = some script)
    (file' : String) :
    ∃ again, Script.read file' script.text = ⟨some again, #[]⟩ ∧
      stmtsUnplaced again.statements = stmtsUnplaced script.statements := by
  obtain ⟨-, hderives, hheight, -⟩ :=
    (Script.ofTokens_eq_some_iff (TokenStream.ended_ofText file text) script).1 h
  have hwritten := hderives.written (words_proper file text)
  obtain ⟨hquiet, ss, hss, heq⟩ := words_of_spells file' script.text (hwritten 0) trivial
  have hheight' : ∀ s ∈ ss, s.height ≤ maxHeight := by
    intro s hs
    have hmem : s.unplaced ∈ stmtsUnplaced script.statements := by
      rw [← heq, stmtsUnplaced_eq_map]
      exact List.mem_map_of_mem hs
    rw [stmtsUnplaced_eq_map] at hmem
    obtain ⟨s', hs', hsame⟩ := List.mem_map.1 hmem
    rw [← s.height_unplaced, ← hsame, s'.height_unplaced]
    exact hheight s' hs'
  have hstop := (TokenStream.ended_ofText file' script.text).stop_kind
  exact ⟨_, run_of_gives hquiet (script_gives hss hheight' hstop), heq⟩

theorem Expr.reads_text {e : Expr} (h : (Expr.read file text).result = some e)
    (file' : String) :
    ∃ again, Expr.read file' e.text = ⟨some again, #[]⟩ ∧ again.unplaced = e.unplaced := by
  obtain ⟨-, hderives, hheight⟩ :=
    (Expr.ofTokens_eq_some_iff (TokenStream.ended_ofText file text) e).1 h
  have hwritten := hderives.written (words_proper file text)
  obtain ⟨hquiet, e', he', heq⟩ := words_of_spells file' e.text (hwritten 0) rfl
  have hheight' : e'.height ≤ maxHeight := by
    rw [← e'.height_unplaced, heq, e.height_unplaced]
    exact hheight
  have hstop := (TokenStream.ended_ofText file' e.text).stop_kind
  exact ⟨e', run_of_gives hquiet (wholeExpression_gives he' hheight' hstop), heq⟩

/-- Writing and reading again gives back every script and every expression that was
read: the same nodes with the same numbers, and so the same text. -/
theorem read_text_eq (file text file' : String) :
    (∀ script, (Script.read file text).result = some script →
      ∃ again, Script.read file' script.text = ⟨some again, #[]⟩ ∧
        again.numbered.unplaced = script.numbered.unplaced ∧ again.text = script.text) ∧
    (∀ e, (Expr.read file text).result = some e →
      ∃ again, Expr.read file' e.text = ⟨some again, #[]⟩ ∧
        (again.number {}).1 = (e.number {}).1 ∧
        (again.number {}).2.unplaced = (e.number {}).2.unplaced ∧ again.text = e.text) := by
  constructor
  · intro script h
    obtain ⟨again, hread, heq⟩ := Script.reads_text h file'
    refine ⟨again, hread, ?_, ?_⟩
    · rw [Script.numbered_unplaced, heq, ← Script.numbered_unplaced]
    · have htext := writeLines_unplaced 0 "" again.statements
      rw [heq, writeLines_unplaced] at htext
      exact htext.symm
  · intro e h
    obtain ⟨again, hread, heq⟩ := Expr.reads_text h file'
    have hnumber := again.number_unplaced {}
    rw [heq, e.number_unplaced] at hnumber
    obtain ⟨hid, htable⟩ := Prod.mk.inj hnumber
    refine ⟨again, hread, hid.symm, htable.symm, ?_⟩
    have htext := again.write_unplaced 0 ""
    rw [heq, e.write_unplaced] at htext
    exact htext.symm

theorem read_text_eq_nested :
    (∃ script, (Script.read "" "if(a)while(b)f(-1.50,\"\\t\");else c=fun(){return;};").result =
      some script ∧ ∃ again, Script.read "again" script.text = ⟨some again, #[]⟩ ∧
        again.numbered.unplaced = script.numbered.unplaced ∧ again.text = script.text) ∧
    ∃ e, (Expr.read "" "- -1*(a .b)<fun()f();").result = some e ∧
      ∃ again, Expr.read "again" e.text = ⟨some again, #[]⟩ ∧
        (again.number {}).1 = (e.number {}).1 ∧
        (again.number {}).2.unplaced = (e.number {}).2.unplaced ∧ again.text = e.text := by
  constructor
  · obtain ⟨script, h⟩ := Option.isSome_iff_exists.1
      (show (Script.read "" "if(a)while(b)f(-1.50,\"\\t\");else c=fun(){return;};").result.isSome by
        decide +kernel)
    exact ⟨script, h, (read_text_eq _ _ "again").1 script h⟩
  · obtain ⟨e, h⟩ := Option.isSome_iff_exists.1
      (show (Expr.read "" "- -1*(a .b)<fun()f();").result.isSome by decide +kernel)
    exact ⟨e, h, (read_text_eq _ _ "again").2 e h⟩

end StackScript
