import StackScript.Proofs.Grammar.Productions
import StackScript.Proofs.Tree.Forest
import StackScript.Grammar.Script

/-!
The rules of the grammar once more, with the tables filled while a text is read. A rule adds
each node as soon as it has read it and hands on nothing but the place of the node in its
table; beside the tables stand the heights of the nodes, where the height of a new node is
looked up below it. What a rule has added stays there even if it fails.
-/

namespace StackScript

/-- The number of a node, from its place among the expressions. -/
def ExprId.ofSlot (slot : Nat) : ExprId := ⟨UInt32.ofNat slot⟩

/-- The number of a node, from its place among the statements. -/
def StmtId.ofSlot (slot : Nat) : StmtId := ⟨UInt32.ofNat slot⟩

namespace Grammar

variable {α β : Type}

/-- The tables as far as they have been filled, with the heights of all nodes. -/
structure Growth where
  table : NodeTable := {}
  exprHeights : Array Nat := #[]
  stmtHeights : Array Nat := #[]
  exprs_size : exprHeights.size = table.exprs.size := by rfl
  stmts_size : stmtHeights.size = table.stmts.size := by rfl

namespace Growth

def heightOf (g : Growth) : Node → Nat
  | .expr slot => g.exprHeights.getD slot 0
  | .stmt slot => g.stmtHeights.getD slot 0

/-- The height of the highest of these nodes. -/
def highest (g : Growth) (nodes : List Node) : Nat :=
  nodes.foldl (fun h n => max h (g.heightOf n)) 0

def position (g : Growth) (slot : Nat) : Position := (g.table.exprs.getD slot default).position

def addExpr (g : Growth) (shape : ExprShape) (position : Position) (height : Nat) : Growth :=
  { g with
    table := (g.table.addExpr shape position).2
    exprHeights := g.exprHeights.push height
    exprs_size := by simp [NodeTable.addExpr, g.exprs_size] }

def addStmt (g : Growth) (shape : StmtShape) (position : Position) (height : Nat) : Growth :=
  { g with
    table := (g.table.addStmt shape position).2
    stmtHeights := g.stmtHeights.push height
    stmts_size := by simp [NodeTable.addStmt, g.stmts_size] }

end Growth

/-- What runs a rule that has failed has failed in the same way. -/
theorem Outcome.none_of_none {s s' : State} (h : s.Before ((none : Option α), s').2 ∧
    (((none : Option α), s').1 = none → s.faults.size < ((none : Option α), s').2.faults.size)) :
    s.Before ((none : Option β), s').2 ∧
      (((none : Option β), s').1 = none → s.faults.size < ((none : Option β), s').2.faults.size) :=
  ⟨h.1, fun _ => h.2 rfl⟩

/-- A rule that adds nodes to the tables. -/
def Growing (α : Type) := Growth → List String → (s : State) → Outcome α s × Growth

namespace Growing

def pure (a : α) : Growing α := fun g _ s => (.succeed a s (.refl s), g)

def bind (growing : Growing α) (f : α → Growing β) : Growing β := fun g trail s =>
  match growing g trail s with
  | (⟨(none, s₁), h⟩, g₁) => (⟨(none, s₁), Outcome.none_of_none h⟩, g₁)
  | (⟨(some a, s₁), h⟩, g₁) =>
    let rest := f a g₁ trail s₁
    (rest.1.since (Outcome.before_of_some h), rest.2)

instance : Monad Growing where
  pure := pure
  bind := bind

/-- A rule that adds nothing. -/
def of (rule : Rule α) : Growing α := fun g trail s => (rule trail s, g)

/-- Looks something up in what has been added. -/
def look (f : Growth → α) : Growing α := fun g _ s => (.succeed (f g) s (.refl s), g)

def within (name : String) (growing : Growing α) : Growing α := fun g trail s =>
  growing g (name :: trail) s

/-- Goes on for as long as `step` knows how to go on with the next token, which it takes. -/
def chain (step : α → Token → Option (Growing α)) (a : α) : Growing α := fun g trail s =>
  if h : s.ahead = [] then (.succeed a s.settle (.settle s), g)
  else
    match step a s.next with
    | none => (.succeed a s.settle (.settle s), g)
    | some growing =>
      have hlt : s.settle.drop.left < s.left := by
        have := s.left_pos h
        simp
        omega
      match growing g trail s.settle.drop with
      | (⟨(none, s₁), h₁⟩, g₁) =>
        (⟨(none, s₁), (State.Before.drop s).trans h₁.1,
          fun _ => Nat.lt_of_le_of_lt (State.Before.drop s).size_le (h₁.2 rfl)⟩, g₁)
      | (⟨(some b, s₁), h₁⟩, g₁) =>
        let rest := chain step b g₁ trail s₁
        (rest.1.since ((State.Before.drop s).trans h₁.1), rest.2)
termination_by _ _ s => s.left
decreasing_by exact Nat.lt_of_le_of_lt h₁.1.left_le hlt

/-- Statements up to the end of the block or of the stream. -/
def statements (inBlock : Bool) (statement : Growing Nat) (before : Array Nat) :
    Growing (Array Nat) := fun g trail s =>
  if endsStatements inBlock s.next.kind then (.succeed before s.settle (.settle s), g)
  else
    let one := statement g trail s.settle
    let round := afterStatement inBlock before one.1
    have hround : s.Before round.1.2 := (State.Before.settle s).trans round.2
    if round.1.2.left < s.left then
      let rest := statements inBlock statement round.1.1 one.2 trail round.1.2
      (rest.1.since hround, rest.2)
    else (.succeed round.1.1 round.1.2 hround, one.2)
termination_by _ _ s => s.left

/-- Adds an expression over these nodes. -/
def addExpr (shape : ExprShape) (children : List Node) (position : Position) : Growing Nat :=
  fun g trail s =>
    let height := g.highest children + 1
    if maxHeight < height then
      (Rule.fail position .nestingTooDeep [toString maxHeight] trail s, g)
    else (.succeed g.table.exprs.size s (.refl s), g.addExpr shape position height)

/-- Adds a statement over these nodes. -/
def addStmt (shape : StmtShape) (children : List Node) (position : Position) : Growing Nat :=
  fun g trail s =>
    let height := g.highest children + 1
    if maxHeight < height then
      (Rule.fail position .nestingTooDeep [toString maxHeight] trail s, g)
    else (.succeed g.table.stmts.size s (.refl s), g.addStmt shape position height)

end Growing

namespace Connective

def shape : Connective → ExprId → ExprId → ExprShape
  | logical op => fun left right => .logical left op right
  | binary op => fun left right => .binary left op right

/-- The connectives of one rank. -/
def ofRank : Nat → List Connective
  | 1 => [binary .mul, binary .div, binary .mod]
  | 2 => [binary .add, binary .sub]
  | 3 => [binary .less, binary .lessEqual, binary .greater, binary .greaterEqual]
  | 4 => [binary .equal, binary .notEqual]
  | 5 => [binary .bitAnd]
  | 6 => [binary .bitOr]
  | 7 => [logical .and]
  | 8 => [logical .or]
  | _ => []

def find? (rank : Nat) (kind : TokenKind) : Option Connective :=
  (ofRank rank).find? fun c => c.kind = kind

end Connective

/-- The three rules that may open inside one another, one level further in. -/
structure Growers where
  statement : Growing Nat
  expression : Growing Nat
  operand : Growing Nat

namespace Growing

open Rule (peek take fail accept require)

variable (inner : Growers)

/-- One level of operators between operands of the next level. -/
def operators (rank : Nat) (next : Growing Nat) : Growing Nat := do
  let first ← next
  chain (fun left token => (Connective.find? rank token.kind).map fun c => do
    let right ← next
    addExpr (c.shape (.ofSlot left) (.ofSlot right)) [.expr left, .expr right] token.position) first

/-- Expressions between commas up to `close`; the opening token has been taken. -/
def argumentList (close : TokenKind) : Growing (List Nat) :=
  within "arguments" do
    if ← of (accept close) then return []
    let first ← inner.expression
    let all ← chain (fun (before : Array Nat) token =>
      if token.kind = .comma then some do
        let slot ← inner.expression
        return before.push slot
      else none) #[first]
    let _ ← of (require close)
    return all.toList

/-- Calls, indices and members behind a name or a function, each at the place of what it
follows. -/
def suffixes (base : Nat) : Growing Nat :=
  chain (fun callee token =>
    match token.kind with
    | .openParen => some do
      let position ← look (·.position callee)
      let all ← argumentList inner .closeParen
      addExpr (.call (.ofSlot callee) (all.map .ofSlot)) (.expr callee :: all.map .expr) position
    | .openBracket => some do
      let position ← look (·.position callee)
      let all ← argumentList inner .closeBracket
      addExpr (.index (.ofSlot callee) (all.map .ofSlot)) (.expr callee :: all.map .expr) position
    | .dot => some do
      let position ← look (·.position callee)
      let name ← of (require .identifier)
      let child ← addExpr (.name name.lexeme) [] name.position
      addExpr (.member (.ofSlot callee) (.ofSlot child)) [.expr callee, .expr child] position
    | _ => none) base

def literal (value : Value) : Growing Nat := do
  let token ← of take
  addExpr (.literal value) [] token.position

def functionLiteral : Growing Nat :=
  within "function" do
    let keyword ← of (require .keywordFun)
    let _ ← of (require .openParen)
    let _ ← of (require .closeParen)
    let body ← inner.statement
    addExpr (.function (.ofSlot body)) [.stmt body] keyword.position

def parenthesized (position : Position) : Growing Nat := do
  let _ ← of take
  let slot ← inner.expression
  let close ← of peek
  if close.kind ≠ .closeParen then
    of (fail close.position .missingCloseParen [close.text])
  let _ ← of take
  addExpr (.group (.ofSlot slot)) [.expr slot] position

def primary : Growing Nat := do
  let token ← of peek
  match token.kind with
  | .keywordTrue => literal (.bool true)
  | .keywordFalse => literal (.bool false)
  | .keywordNull => literal .null
  | .int | .number =>
    match token.literal with
    | some value => literal value
    | none => of (fail token.position .unreadableNumber [token.lexeme])
  | .string =>
    match token.literal with
    | some value => literal value
    | none => of (fail token.position .invalidParserState ["string token without a value"])
  | .openParen => parenthesized inner token.position
  | .identifier =>
    let name ← of take
    suffixes inner (← addExpr (.name name.lexeme) [] name.position)
  | .keywordFun => suffixes inner (← functionLiteral inner)
  | .unknown => of (fail token.position .invalidSymbol [token.lexeme])
  | _ => of (fail token.position .expectedExpression [token.text])

def unary : Growing Nat := do
  let token ← of peek
  match prefixOperator token.kind with
  | none => primary inner
  | some op =>
    let _ ← of take
    let operand ← inner.operand
    addExpr (.unary op (.ofSlot operand)) [.expr operand] token.position

/-- Operands of one rank. -/
def operands : Nat → Growing Nat
  | 0 => unary inner
  | rank + 1 => operators (rank + 1) (operands rank)

def block : Growing Nat :=
  within "block" do
    let opening ← of (require .openBrace)
    let body ← statements true inner.statement #[]
    let _ ← of (require .closeBrace)
    addStmt (.block (body.toList.map .ofSlot)) (body.toList.map .stmt) opening.position

def declaration : Growing Nat :=
  within "declaration" do
    let keyword ← of (require .keywordVar)
    let name ← of (require .identifier)
    let _ ← of (require .assign)
    let value ← inner.expression
    let _ ← of (require .semicolon)
    addStmt (.declare name.lexeme (.ofSlot value)) [.expr value] keyword.position

def returnStatement : Growing Nat :=
  within "return" do
    let keyword ← of (require .keywordReturn)
    if ← of (accept .semicolon) then addStmt .returnNull [] keyword.position
    else
      let value ← inner.expression
      let _ ← of (require .semicolon)
      addStmt (.returnValue (.ofSlot value)) [.expr value] keyword.position

/-- An expression in parentheses. -/
def condition : Growing Nat := do
  let _ ← of (require .openParen)
  let value ← inner.expression
  let _ ← of (require .closeParen)
  return value

def ifStatement : Growing Nat :=
  within "if" do
    let keyword ← of (require .keywordIf)
    let test ← condition inner
    let body ← inner.statement
    if ← of (accept .keywordElse) then
      let other ← inner.statement
      addStmt (.branch (.ofSlot test) (.ofSlot body) (some (.ofSlot other)))
        [.expr test, .stmt body, .stmt other] keyword.position
    else
      addStmt (.branch (.ofSlot test) (.ofSlot body) none) [.expr test, .stmt body]
        keyword.position

def whileStatement : Growing Nat :=
  within "while" do
    let keyword ← of (require .keywordWhile)
    let test ← condition inner
    let body ← inner.statement
    addStmt (.whileDo (.ofSlot test) (.ofSlot body)) [.expr test, .stmt body] keyword.position

def expressionStatement : Growing Nat :=
  within "value" do
    let start ← of peek
    let value ← inner.expression
    if ← of (accept .assign) then
      let source ← inner.expression
      let _ ← of (require .semicolon)
      addStmt (.assign (.ofSlot value) (.ofSlot source)) [.expr value, .expr source] start.position
    else
      let _ ← of (require .semicolon)
      addStmt (.expression (.ofSlot value)) [.expr value] start.position

def statement : Growing Nat :=
  within "statement" do
    let start ← of peek
    match start.kind with
    | .semicolon =>
      let _ ← of take
      addStmt .empty [] start.position
    | .openBrace => block inner
    | .keywordVar => declaration inner
    | .keywordReturn => returnStatement inner
    | .keywordIf => ifStatement inner
    | .keywordWhile => whileStatement inner
    | .keywordFor | .keywordElse => of (fail start.position .invalidSymbol [start.lexeme])
    | _ => expressionStatement inner

/-- The rules with so many levels left to open. -/
def level : Nat → Growers
  | 0 => ⟨of tooDeep, of tooDeep, of tooDeep⟩
  | n + 1 =>
    let inner := level n
    ⟨statement inner, operands inner loosest, unary inner⟩

/-- A whole script. Its root is added whatever the height of the root is. -/
def script : Growing StmtId := do
  let first ← of peek
  let body ← statements false (level maxNesting).statement #[]
  fun g _ s =>
    let shape := .block (body.toList.map .ofSlot)
    (.succeed (.ofSlot g.table.stmts.size) s (.refl s),
      g.addStmt shape first.position (g.highest (body.toList.map .stmt) + 1))

def wholeExpression : Growing ExprId := do
  let slot ← (level maxNesting).expression
  let _ ← of (require .endOfStream)
  return .ofSlot slot

/-- What comes of the tokens, beside the tables then. -/
def run (growing : Growing α) (tokens : TokenStream) : Reading α × Growth :=
  let grown := growing {} [] (.ofStream tokens)
  (.ofOutcome grown.1, grown.2)

end Growing

end Grammar

end StackScript
