import StackScript.Grammar.Statement

/-!
The grammar of scripts, apart from any way of reading them. A derivation joins a
sequence of tokens to the tree that it spells, and counts how many statements,
expressions and operands of prefix operators stand open inside one another.
Connectives are ranked from the tightest to the loosest; an operand of rank zero
has no connective outside parentheses.
-/

namespace StackScript.Grammar

/-- The operators that stand between two operands. -/
inductive Connective where
  | logical (op : LogicalOp)
  | binary (op : BinaryOp)
  deriving DecidableEq

namespace Connective

def kind : Connective → TokenKind
  | logical .or => .or
  | logical .and => .and
  | binary .bitOr => .bitOr
  | binary .bitAnd => .bitAnd
  | binary .equal => .equal
  | binary .notEqual => .notEqual
  | binary .less => .less
  | binary .lessEqual => .lessEqual
  | binary .greater => .greater
  | binary .greaterEqual => .greaterEqual
  | binary .add => .plus
  | binary .sub => .minus
  | binary .mul => .star
  | binary .div => .slash
  | binary .mod => .percent

/-- How loosely a connective binds. -/
def rank : Connective → Nat
  | logical .or => 8
  | logical .and => 7
  | binary .bitOr => 6
  | binary .bitAnd => 5
  | binary .equal | binary .notEqual => 4
  | binary .less | binary .lessEqual | binary .greater | binary .greaterEqual => 3
  | binary .add | binary .sub => 2
  | binary .mul | binary .div | binary .mod => 1

def join : Connective → Expr → Expr → Position → Expr
  | logical op => .logical op
  | binary op => .binary op

end Connective

/-- The rank of a whole expression. -/
def loosest : Nat := 8

def prefixKind : UnaryOp → TokenKind
  | .negate => .minus
  | .not => .not
  | .bitNot => .bitNot

/-- The value that a token spells by itself, if any. Digits that do not fit their type
spell none. -/
def constant? (t : Token) : Option Value :=
  match t.kind with
  | .keywordTrue => some (.bool true)
  | .keywordFalse => some (.bool false)
  | .keywordNull => some .null
  | .int | .number | .string => t.literal
  | _ => none

end Grammar

/-- Whether a statement ends in an `if` that has no `else` yet. Such a statement
cannot be followed by `else`, which would belong to that `if`. -/
def Stmt.endsOpen : Stmt → Bool
  | .ifThen _ _ _ => true
  | .ifElse _ _ other _ => other.endsOpen
  | .whileDo _ body _ => body.endsOpen
  | _ => false

namespace Grammar

/-- What a sequence of tokens can spell. -/
inductive Phrase where
  | statement (s : Stmt)
  | statements (ss : List Stmt)
  | expression (e : Expr)
  | operand (rank : Nat) (e : Expr)
  /-- A name or a function with the calls, indices and members behind it. -/
  | callable (e : Expr)
  | arguments (es : List Expr)
  /-- Expressions with commas between them, at least one. -/
  | series (es : List Expr)

/-- `Derives n ts p`: the tokens `ts` spell `p`, with at most `n` statements,
expressions and operands of prefix operators open inside one another. -/
inductive Derives : Nat → List Token → Phrase → Prop
  | empty {n : Nat} {t : Token} (ht : t.kind = .semicolon) :
      Derives (n + 1) [t] (.statement (.empty t.position))
  | block {n : Nat} {opening closing : Token} {ts : List Token} {ss : List Stmt}
      (ho : opening.kind = .openBrace) (body : Derives n ts (.statements ss))
      (hc : closing.kind = .closeBrace) :
      Derives (n + 1) (opening :: ts ++ [closing]) (.statement (.block ss opening.position))
  | declare {n : Nat} {var name sign stop : Token} {ts : List Token} {e : Expr}
      (hv : var.kind = .keywordVar) (hn : name.kind = .identifier)
      (hs : sign.kind = .assign) (value : Derives n ts (.expression e))
      (ht : stop.kind = .semicolon) :
      Derives (n + 1) (var :: name :: sign :: ts ++ [stop])
        (.statement (.declare name.lexeme e var.position))
  | returnNull {n : Nat} {word stop : Token} (hw : word.kind = .keywordReturn)
      (ht : stop.kind = .semicolon) :
      Derives (n + 1) [word, stop] (.statement (.returnNull word.position))
  | returnValue {n : Nat} {word stop : Token} {ts : List Token} {e : Expr}
      (hw : word.kind = .keywordReturn) (value : Derives n ts (.expression e))
      (ht : stop.kind = .semicolon) :
      Derives (n + 1) (word :: ts ++ [stop]) (.statement (.returnValue e word.position))
  | ifThen {n : Nat} {word opening closing : Token} {ts us : List Token} {e : Expr} {s : Stmt}
      (hw : word.kind = .keywordIf) (ho : opening.kind = .openParen)
      (test : Derives n ts (.expression e)) (hc : closing.kind = .closeParen)
      (body : Derives n us (.statement s)) :
      Derives (n + 1) (word :: opening :: ts ++ closing :: us)
        (.statement (.ifThen e s word.position))
  | ifElse {n : Nat} {word opening closing other : Token} {ts us vs : List Token} {e : Expr}
      {s s' : Stmt} (hw : word.kind = .keywordIf) (ho : opening.kind = .openParen)
      (test : Derives n ts (.expression e)) (hc : closing.kind = .closeParen)
      (body : Derives n us (.statement s)) (closed : s.endsOpen = false)
      (hl : other.kind = .keywordElse) (otherwise : Derives n vs (.statement s')) :
      Derives (n + 1) (word :: opening :: ts ++ closing :: us ++ other :: vs)
        (.statement (.ifElse e s s' word.position))
  | whileDo {n : Nat} {word opening closing : Token} {ts us : List Token} {e : Expr} {s : Stmt}
      (hw : word.kind = .keywordWhile) (ho : opening.kind = .openParen)
      (test : Derives n ts (.expression e)) (hc : closing.kind = .closeParen)
      (body : Derives n us (.statement s)) :
      Derives (n + 1) (word :: opening :: ts ++ closing :: us)
        (.statement (.whileDo e s word.position))
  | value {n : Nat} {first stop : Token} {ts : List Token} {e : Expr}
      (value : Derives n (first :: ts) (.expression e)) (ht : stop.kind = .semicolon) :
      Derives (n + 1) (first :: ts ++ [stop]) (.statement (.expression e first.position))
  | assign {n : Nat} {first sign stop : Token} {ts us : List Token} {e e' : Expr}
      (target : Derives n (first :: ts) (.expression e)) (hs : sign.kind = .assign)
      (source : Derives n us (.expression e')) (ht : stop.kind = .semicolon) :
      Derives (n + 1) (first :: ts ++ sign :: us ++ [stop])
        (.statement (.assign e e' first.position))
  | none {n : Nat} : Derives n [] (.statements [])
  | cons {n : Nat} {ts us : List Token} {s : Stmt} {ss : List Stmt}
      (head : Derives n ts (.statement s)) (tail : Derives n us (.statements ss)) :
      Derives n (ts ++ us) (.statements (s :: ss))
  | expression {n : Nat} {ts : List Token} {e : Expr}
      (inner : Derives n ts (.operand loosest e)) : Derives (n + 1) ts (.expression e)
  | tighter {n rank : Nat} {ts : List Token} {e : Expr}
      (inner : Derives n ts (.operand rank e)) : Derives n ts (.operand (rank + 1) e)
  | connected {n : Nat} {c : Connective} {sign : Token} {ts us : List Token} {l r : Expr}
      (left : Derives n ts (.operand c.rank l)) (hs : sign.kind = c.kind)
      (right : Derives n us (.operand (c.rank - 1) r)) :
      Derives n (ts ++ sign :: us) (.operand c.rank (c.join l r sign.position))
  | prefixed {n : Nat} {op : UnaryOp} {sign : Token} {ts : List Token} {e : Expr}
      (hs : sign.kind = prefixKind op) (operand : Derives n ts (.operand 0 e)) :
      Derives (n + 1) (sign :: ts) (.operand 0 (.unary op e sign.position))
  | constant {n : Nat} {t : Token} {v : Value} (ht : constant? t = some v) :
      Derives n [t] (.operand 0 (.literal v t.position))
  | group {n : Nat} {opening closing : Token} {ts : List Token} {e : Expr}
      (ho : opening.kind = .openParen) (inner : Derives n ts (.expression e))
      (hc : closing.kind = .closeParen) :
      Derives n (opening :: ts ++ [closing]) (.operand 0 (.group e opening.position))
  | called {n : Nat} {ts : List Token} {e : Expr} (inner : Derives n ts (.callable e)) :
      Derives n ts (.operand 0 e)
  | name {n : Nat} {t : Token} (ht : t.kind = .identifier) :
      Derives n [t] (.callable (.name t.lexeme t.position))
  | function {n : Nat} {word opening closing : Token} {ts : List Token} {s : Stmt}
      (hw : word.kind = .keywordFun) (ho : opening.kind = .openParen)
      (hc : closing.kind = .closeParen) (body : Derives n ts (.statement s)) :
      Derives n (word :: opening :: closing :: ts) (.callable (.function s word.position))
  | call {n : Nat} {opening closing : Token} {ts us : List Token} {e : Expr} {es : List Expr}
      (callee : Derives n ts (.callable e)) (ho : opening.kind = .openParen)
      (inner : Derives n us (.arguments es)) (hc : closing.kind = .closeParen) :
      Derives n (ts ++ opening :: us ++ [closing]) (.callable (.call e es e.position))
  | index {n : Nat} {opening closing : Token} {ts us : List Token} {e : Expr} {es : List Expr}
      (callee : Derives n ts (.callable e)) (ho : opening.kind = .openBracket)
      (inner : Derives n us (.arguments es)) (hc : closing.kind = .closeBracket) :
      Derives n (ts ++ opening :: us ++ [closing]) (.callable (.index e es e.position))
  | member {n : Nat} {dot name : Token} {ts : List Token} {e : Expr}
      (parent : Derives n ts (.callable e)) (hd : dot.kind = .dot)
      (hn : name.kind = .identifier) :
      Derives n (ts ++ [dot, name])
        (.callable (.member e (.name name.lexeme name.position) e.position))
  | noArguments {n : Nat} : Derives n [] (.arguments [])
  | someArguments {n : Nat} {ts : List Token} {es : List Expr}
      (inner : Derives n ts (.series es)) : Derives n ts (.arguments es)
  | one {n : Nat} {ts : List Token} {e : Expr} (inner : Derives n ts (.expression e)) :
      Derives n ts (.series [e])
  | more {n : Nat} {comma : Token} {ts us : List Token} {es : List Expr} {e : Expr}
      (before : Derives n ts (.series es)) (hc : comma.kind = .comma)
      (last : Derives n us (.expression e)) :
      Derives n (ts ++ comma :: us) (.series (es ++ [e]))

/-- Whether a name or a function can begin with this kind of token. -/
def startsCallable : TokenKind → Bool
  | .identifier | .keywordFun => true
  | _ => false

/-- Whether an expression can begin with this kind of token. -/
def startsExpression : TokenKind → Bool
  | .minus | .not | .bitNot | .keywordTrue | .keywordFalse | .keywordNull | .int | .number
  | .string | .openParen | .identifier | .keywordFun => true
  | _ => false

/-- The words and signs that begin statements of their own kind. -/
def startsOther : TokenKind → Bool
  | .semicolon | .openBrace | .keywordVar | .keywordReturn | .keywordIf | .keywordWhile => true
  | _ => false

/-- With which tokens a phrase can begin. -/
def Phrase.starts : Phrase → TokenKind → Bool
  | .statement _, kind => startsExpression kind || startsOther kind
  | .expression _, kind | .operand _ _, kind | .series _, kind => startsExpression kind
  | .callable _, kind => startsCallable kind
  | .statements _, _ | .arguments _, _ => true

/-- Whether a phrase can be spelled by no token at all. -/
def Phrase.optional : Phrase → Bool
  | .statements _ | .arguments _ => true
  | _ => false

theorem startsExpression_of_callable {kind : TokenKind} (h : startsCallable kind = true) :
    startsExpression kind = true := by
  cases kind <;> simp_all [startsCallable, startsExpression]

theorem startsExpression_of_constant {t : Token} {v : Value} (h : constant? t = some v) :
    startsExpression t.kind = true := by
  unfold constant? at h
  split at h <;> simp_all [startsExpression]

theorem startsExpression_prefixKind (op : UnaryOp) : startsExpression (prefixKind op) = true := by
  cases op <;> rfl

namespace Derives

theorem starts {n : Nat} {ts : List Token} {p : Phrase} (h : Derives n ts p)
    (hp : p.optional = false) : ∃ t us, ts = t :: us ∧ p.starts t.kind = true := by
  induction h with
  | none | cons | noArguments | someArguments => contradiction
  | empty ht => exact ⟨_, _, rfl, by simp [Phrase.starts, startsOther, ht]⟩
  | block ho _ _ => exact ⟨_, _, rfl, by simp [Phrase.starts, startsOther, ho]⟩
  | declare hv _ _ _ _ => exact ⟨_, _, rfl, by simp [Phrase.starts, startsOther, hv]⟩
  | returnNull hw _ => exact ⟨_, _, rfl, by simp [Phrase.starts, startsOther, hw]⟩
  | returnValue hw _ _ => exact ⟨_, _, rfl, by simp [Phrase.starts, startsOther, hw]⟩
  | ifThen hw _ _ _ _ => exact ⟨_, _, rfl, by simp [Phrase.starts, startsOther, hw]⟩
  | ifElse hw _ _ _ _ _ _ _ => exact ⟨_, _, rfl, by simp [Phrase.starts, startsOther, hw]⟩
  | whileDo hw _ _ _ _ => exact ⟨_, _, rfl, by simp [Phrase.starts, startsOther, hw]⟩
  | value _ _ ih =>
    obtain ⟨t, us, heq, ht⟩ := ih rfl
    obtain ⟨rfl, rfl⟩ := List.cons.inj heq
    exact ⟨_, _, rfl, Bool.or_eq_true_iff.2 (.inl ht)⟩
  | assign _ _ _ _ ih =>
    obtain ⟨t, us, heq, ht⟩ := ih rfl
    obtain ⟨rfl, rfl⟩ := List.cons.inj heq
    exact ⟨_, _, rfl, Bool.or_eq_true_iff.2 (.inl ht)⟩
  | expression _ ih | tighter _ ih | one _ ih => exact ih rfl
  | connected _ _ _ ih =>
    obtain ⟨t, us, rfl, ht⟩ := ih rfl
    exact ⟨t, _, rfl, ht⟩
  | prefixed hs _ =>
    refine ⟨_, _, rfl, ?_⟩
    rw [hs]
    exact startsExpression_prefixKind _
  | constant ht => exact ⟨_, _, rfl, startsExpression_of_constant ht⟩
  | group ho _ _ => exact ⟨_, _, rfl, by simp [Phrase.starts, startsExpression, ho]⟩
  | called _ ih =>
    obtain ⟨t, us, rfl, ht⟩ := ih rfl
    exact ⟨t, us, rfl, startsExpression_of_callable ht⟩
  | name ht => exact ⟨_, _, rfl, by simp [Phrase.starts, startsCallable, ht]⟩
  | function hw _ _ _ => exact ⟨_, _, rfl, by simp [Phrase.starts, startsCallable, hw]⟩
  | call _ _ _ _ ih | index _ _ _ _ ih | member _ _ _ ih | more _ _ _ ih =>
    obtain ⟨t, us, rfl, ht⟩ := ih rfl
    exact ⟨t, _, rfl, ht⟩

theorem ne_nil {n : Nat} {ts : List Token} {p : Phrase} (h : Derives n ts p)
    (hp : p.optional = false) : ts ≠ [] := by
  obtain ⟨t, us, rfl, -⟩ := h.starts hp
  exact List.cons_ne_nil t us

/-- One more statement behind others. -/
theorem append_one {n : Nat} {ts us : List Token} {ss : List Stmt} {s : Stmt}
    (h : Derives n ts (.statements ss)) (hs : Derives n us (.statement s)) :
    Derives n (ts ++ us) (.statements (ss ++ [s])) := by
  induction ss generalizing ts with
  | nil =>
    cases h
    simpa using Derives.cons hs .none
  | cons s' ss ih =>
    cases h with
    | cons head tail => simpa using Derives.cons head (ih tail)

end Derives

end Grammar

end StackScript
