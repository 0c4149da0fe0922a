import StackScript.Grammar.Expression

/-!
Statements, and how reading goes on behind one that is wrong: at the next token
that can start a statement or close a block, or behind the next semicolon.
-/

namespace StackScript.Grammar

open Rule

/-- Whether reading can go on in front of this token. -/
def startsStatement : TokenKind → Bool
  | .closeBrace | .keywordFun | .keywordVar | .keywordFor | .keywordIf | .keywordWhile
  | .keywordReturn => true
  | _ => false

/-- Drops tokens up to a place where reading can go on. -/
def State.skip (s : State) : State :=
  if _ : s.ahead = [] then s.settle
  else if startsStatement s.next.kind then s.settle
  else if s.next.kind = .semicolon then s.settle.drop
  else s.settle.drop.skip
termination_by s.left
decreasing_by
  have := s.left_pos ‹_›
  simp
  omega

theorem State.before_skip (s : State) : s.Before s.skip := by
  fun_induction State.skip s with
  | case1 s | case2 s => exact .settle s
  | case3 s => exact .drop s
  | case4 s h hs hk ih => exact (State.Before.drop s).trans ih

/-- Goes on behind a statement that is wrong. The token at fault is dropped, unless
it closes the block that the statement stands in. -/
def State.recover (inBlock : Bool) (s : State) : State :=
  if inBlock && s.next.kind == .closeBrace then s.settle
  else if s.next.kind = .semicolon then s.settle.drop
  else s.settle.drop.skip

theorem State.before_recover (inBlock : Bool) (s : State) : s.Before (s.recover inBlock) := by
  unfold State.recover
  split
  · exact .settle s
  · split
    · exact .drop s
    · exact (State.Before.drop s).trans (State.before_skip _)

/-- Whether a list of statements ends in front of this token. -/
def endsStatements (inBlock : Bool) : TokenKind → Bool
  | .endOfStream => true
  | .closeBrace => inBlock
  | _ => false

/-- The statements and the place behind one more statement. One that is wrong is left
out. -/
def afterStatement {α : Type} (inBlock : Bool) (before : Array α) {s : State}
    (o : Outcome α s) : { r : Array α × State // s.Before r.2 } :=
  match o with
  | ⟨(some stmt, s₁), h⟩ => ⟨(before.push stmt, s₁), Outcome.before_of_some h⟩
  | ⟨(none, s₁), h⟩ => ⟨(before, s₁.recover inBlock), h.1.trans (s₁.before_recover inBlock)⟩

/-- Statements up to the end of the block or of the stream. A round that takes nothing
would be in front of that end. -/
def statements (inBlock : Bool) (statement : Rule (Tall Stmt)) (before : Array (Tall Stmt)) :
    Rule (Array (Tall Stmt)) := fun trail s =>
  if endsStatements inBlock s.next.kind then .succeed before s.settle (.settle s)
  else
    let round := afterStatement inBlock before (statement trail s.settle)
    have hround : s.Before round.1.2 := (State.Before.settle s).trans round.2
    if round.1.2.left < s.left then
      (statements inBlock statement round.1.1 trail round.1.2).since hround
    else .succeed round.1.1 round.1.2 hround
termination_by _ s => s.left

def block (inner : Nested) : Rule (Tall Stmt) :=
  within "block" do
    let opening ← require .openBrace
    let body ← statements true inner.statement #[]
    let _ ← require .closeBrace
    node (.block (body.map Tall.tree).toList opening.position)
      (body.foldl (fun h s => max h s.height) 0) opening.position

def declaration (inner : Nested) : Rule (Tall Stmt) :=
  within "declaration" do
    let keyword ← require .keywordVar
    let name ← require .identifier
    let _ ← require .assign
    let value ← inner.expression
    let _ ← require .semicolon
    node (.declare name.lexeme value.tree keyword.position) value.height keyword.position

def returnStatement (inner : Nested) : Rule (Tall Stmt) :=
  within "return" do
    let keyword ← require .keywordReturn
    if ← accept .semicolon then node (.returnNull keyword.position) 0 keyword.position
    else
      let value ← inner.expression
      let _ ← require .semicolon
      node (.returnValue value.tree keyword.position) value.height keyword.position

/-- An expression in parentheses. -/
def condition (inner : Nested) : Rule (Tall Expr) := do
  let _ ← require .openParen
  let value ← inner.expression
  let _ ← require .closeParen
  return value

def ifStatement (inner : Nested) : Rule (Tall Stmt) :=
  within "if" do
    let keyword ← require .keywordIf
    let test ← condition inner
    let body ← inner.statement
    if ← accept .keywordElse then
      let other ← inner.statement
      node (.ifElse test.tree body.tree other.tree keyword.position)
        (max (max test.height body.height) other.height) keyword.position
    else
      node (.ifThen test.tree body.tree keyword.position) (max test.height body.height)
        keyword.position

def whileStatement (inner : Nested) : Rule (Tall Stmt) :=
  within "while" do
    let keyword ← require .keywordWhile
    let test ← condition inner
    let body ← inner.statement
    node (.whileDo test.tree body.tree keyword.position) (max test.height body.height)
      keyword.position

def expressionStatement (inner : Nested) : Rule (Tall Stmt) :=
  within "value" do
    let position := (← peek).position
    let value ← inner.expression
    if ← accept .assign then
      let source ← inner.expression
      let _ ← require .semicolon
      node (.assign value.tree source.tree position) (max value.height source.height) position
    else
      let _ ← require .semicolon
      node (.expression value.tree position) value.height position

def statement (inner : Nested) : Rule (Tall Stmt) :=
  within "statement" do
    let start ← peek
    match start.kind with
    | .semicolon =>
      let _ ← take
      node (.empty start.position) 0 start.position
    | .openBrace => block inner
    | .keywordVar => declaration inner
    | .keywordReturn => returnStatement inner
    | .keywordIf => ifStatement inner
    | .keywordWhile => whileStatement inner
    | .keywordFor | .keywordElse => fail start.position .invalidSymbol [start.lexeme]
    | _ => expressionStatement inner

/-- The rules with so many levels left to open. -/
def level : Nat → Nested
  | 0 => ⟨tooDeep, tooDeep, tooDeep⟩
  | n + 1 =>
    let inner := level n
    ⟨statement inner, expression inner, unary inner⟩

end StackScript.Grammar
