import StackScript.Grammar.Rule

/-!
Expressions, from the loosest operators to the tightest. Operators of one level
group to the left; prefix operators bind tighter than all others, and calls,
indices and members follow a name or a function.
-/

namespace StackScript.Grammar

open Rule

/-- One level of operators between operands of the next level. -/
def operators (make? : TokenKind → Option (Expr → Expr → Position → Expr))
    (next : Rule (Tall Expr)) : Rule (Tall Expr) := do
  let first ← next
  chain (fun left token => (make? token.kind).map fun make => do
    let right ← next
    node (make left.tree right.tree token.position) (max left.height right.height)
      token.position) first

def orOperator : TokenKind → Option (Expr → Expr → Position → Expr)
  | .or => some (.logical .or)
  | _ => none

def andOperator : TokenKind → Option (Expr → Expr → Position → Expr)
  | .and => some (.logical .and)
  | _ => none

def bitOrOperator : TokenKind → Option (Expr → Expr → Position → Expr)
  | .bitOr => some (.binary .bitOr)
  | _ => none

def bitAndOperator : TokenKind → Option (Expr → Expr → Position → Expr)
  | .bitAnd => some (.binary .bitAnd)
  | _ => none

def equalityOperator : TokenKind → Option (Expr → Expr → Position → Expr)
  | .equal => some (.binary .equal)
  | .notEqual => some (.binary .notEqual)
  | _ => none

def orderOperator : TokenKind → Option (Expr → Expr → Position → Expr)
  | .less => some (.binary .less)
  | .lessEqual => some (.binary .lessEqual)
  | .greater => some (.binary .greater)
  | .greaterEqual => some (.binary .greaterEqual)
  | _ => none

def sumOperator : TokenKind → Option (Expr → Expr → Position → Expr)
  | .plus => some (.binary .add)
  | .minus => some (.binary .sub)
  | _ => none

def productOperator : TokenKind → Option (Expr → Expr → Position → Expr)
  | .star => some (.binary .mul)
  | .slash => some (.binary .div)
  | .percent => some (.binary .mod)
  | _ => none

/-- Expressions between commas up to `close`; the opening token has been taken. -/
def argumentList (inner : Nested) (close : TokenKind) : Rule (Tall (List Expr)) :=
  within "arguments" do
    if ← accept close then return ⟨[], 0⟩
    let first ← inner.expression
    let all ← chain (fun (before : Array (Tall Expr)) token =>
      if token.kind = .comma then some do
        let e ← inner.expression
        return before.push e
      else none) #[first]
    let _ ← require close
    return ⟨(all.map Tall.tree).toList, all.foldl (fun h e => max h e.height) 0⟩

/-- Calls, indices and members behind a name or a function. -/
def suffixes (inner : Nested) (base : Tall Expr) : Rule (Tall Expr) :=
  let position := base.tree.position
  chain (fun callee token =>
    match token.kind with
    | .openParen => some do
      let all ← argumentList inner .closeParen
      node (.call callee.tree all.tree position) (max callee.height all.height) position
    | .openBracket => some do
      let all ← argumentList inner .closeBracket
      node (.index callee.tree all.tree position) (max callee.height all.height) position
    | .dot => some do
      let name ← require .identifier
      let child ← node (Expr.name name.lexeme name.position) 0 name.position
      node (.member callee.tree child.tree position) (max callee.height child.height) position
    | _ => none) base

def literal (value : Value) : Rule (Tall Expr) := do
  let token ← take
  node (.literal value token.position) 0 token.position

def functionLiteral (inner : Nested) : Rule (Tall Expr) :=
  within "function" do
    let keyword ← require .keywordFun
    let _ ← require .openParen
    let _ ← require .closeParen
    let body ← inner.statement
    node (.function body.tree keyword.position) body.height keyword.position

def parenthesized (inner : Nested) (position : Position) : Rule (Tall Expr) := do
  let _ ← take
  let e ← inner.expression
  let close ← peek
  if close.kind ≠ .closeParen then
    fail close.position .missingCloseParen [close.text]
  let _ ← take
  node (.group e.tree position) e.height position

def primary (inner : Nested) : Rule (Tall Expr) := do
  let token ← peek
  match token.kind with
  | .keywordTrue => literal (.bool true)
  | .keywordFalse => literal (.bool false)
  | .keywordNull => literal .null
  | .int | .number =>
    match token.literal with
    | some value => literal value
    | none => fail token.position .unreadableNumber [token.lexeme]
  | .string =>
    match token.literal with
    | some value => literal value
    | none => fail token.position .invalidParserState ["string token without a value"]
  | .openParen => parenthesized inner token.position
  | .identifier =>
    let name ← take
    suffixes inner (← node (.name name.lexeme name.position) 0 name.position)
  | .keywordFun => suffixes inner (← functionLiteral inner)
  | .unknown => fail token.position .invalidSymbol [token.lexeme]
  | _ => fail token.position .expectedExpression [token.text]

def prefixOperator : TokenKind → Option UnaryOp
  | .minus => some .negate
  | .not => some .not
  | .bitNot => some .bitNot
  | _ => none

def unary (inner : Nested) : Rule (Tall Expr) := do
  let token ← peek
  match prefixOperator token.kind with
  | none => primary inner
  | some op =>
    let _ ← take
    let operand ← inner.operand
    node (.unary op operand.tree token.position) operand.height token.position

def expression (inner : Nested) : Rule (Tall Expr) :=
  operators orOperator <|
  operators andOperator <|
  operators bitOrOperator <|
  operators bitAndOperator <|
  operators equalityOperator <|
  operators orderOperator <|
  operators sumOperator <|
  operators productOperator <|
  unary inner

end StackScript.Grammar
