import StackScript.Tree.Basic
import StackScript.Text.Column

/-!
Scripts as text. A statement stands on lines of its own, four columns further in
for each block around it; the body of an `if` or `while` that is not a block is
set in as if it were one. A body of a function that is not a block follows on the
same line.
-/

namespace StackScript

/-- How far in the body of an `if` or `while` is set. -/
def Stmt.bodyIndent (indent : Nat) : Stmt → Nat
  | .block _ _ => indent
  | _ => indent + 1

open Text (margin)

mutual

/-- Writes an expression behind `out`; what it holds on lines of its own is set in
by `indent`. -/
def Expr.write (indent : Nat) (out : String) : Expr → String
  | .binary op left right _ =>
    right.write indent (left.write indent out ++ " " ++ op.symbol ++ " ")
  | .logical op left right _ =>
    right.write indent (left.write indent out ++ " " ++ op.symbol ++ " ")
  | .unary op operand _ => operand.write indent (out ++ op.symbol)
  | .group inner _ => inner.write indent (out ++ "(") ++ ")"
  | .literal value _ => out ++ value.literalText
  | .name text _ => out ++ text
  | .function (.block body _) _ =>
    writeLines (indent + 1) (out ++ "fun() \x7b\n") body ++ margin indent ++ "\x7d"
  | .function body _ => body.write 0 (out ++ "fun() ")
  | .call callee arguments _ =>
    writeArguments indent (callee.write indent out ++ "(") arguments ++ ")"
  | .index callee arguments _ =>
    writeArguments indent (callee.write indent out ++ "[") arguments ++ "]"
  | .member parent child _ => child.write indent (parent.write indent out ++ ".")

def writeArguments (indent : Nat) (out : String) : List Expr → String
  | [] => out
  | [e] => e.write indent out
  | e :: es => writeArguments indent (e.write indent out ++ ", ") es

/-- Writes a statement behind `out`, without the end of its last line. -/
def Stmt.write (indent : Nat) (out : String) : Stmt → String
  | .empty _ => out ++ margin indent ++ ";"
  | .declare name value _ =>
    value.write indent (out ++ margin indent ++ "var " ++ name ++ " = ") ++ ";"
  | .block body _ =>
    writeLines (indent + 1) (out ++ margin indent ++ "\x7b\n") body ++ margin indent ++ "\x7d"
  | .returnNull _ => out ++ margin indent ++ "return;"
  | .returnValue value _ => value.write indent (out ++ margin indent ++ "return ") ++ ";"
  | .ifThen condition body _ =>
    body.write (body.bodyIndent indent)
      (condition.write indent (out ++ margin indent ++ "if(") ++ ")\n")
  | .ifElse condition body other _ =>
    other.write (other.bodyIndent indent)
      (body.write (body.bodyIndent indent)
        (condition.write indent (out ++ margin indent ++ "if(") ++ ")\n") ++ "\n" ++
        margin indent ++ "else\n")
  | .whileDo condition body _ =>
    body.write (body.bodyIndent indent)
      (condition.write indent (out ++ margin indent ++ "while(") ++ ")\n")
  | .expression value _ => value.write indent (out ++ margin indent) ++ ";"
  | .assign target value _ =>
    value.write indent (target.write indent (out ++ margin indent) ++ " = ") ++ ";"

/-- Writes statements line by line. -/
def writeLines (indent : Nat) (out : String) : List Stmt → String
  | [] => out
  | s :: ss => writeLines indent (s.write indent out ++ "\n") ss

end

def Expr.text (e : Expr) : String := e.write 0 ""

def Stmt.text (s : Stmt) : String := s.write 0 "" ++ "\n"

def Script.text (s : Script) : String := writeLines 0 "" s.statements

/-- The expression with every operation in parentheses, its operator first:
`(+ 1 (* 2 3))`. -/
def Expr.outline : Expr → String
  | .binary op left right _ =>
    "(" ++ op.symbol ++ " " ++ left.outline ++ " " ++ right.outline ++ ")"
  | .logical op left right _ =>
    "(" ++ op.symbol ++ " " ++ left.outline ++ " " ++ right.outline ++ ")"
  | .unary op operand _ => "(" ++ op.symbol ++ " " ++ operand.outline ++ ")"
  | .group inner _ => "(group " ++ inner.outline ++ ")"
  | e => e.text

end StackScript
