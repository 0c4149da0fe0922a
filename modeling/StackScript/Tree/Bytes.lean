import StackScript.Tree.Numbered
import StackScript.Bytes.Writer
import StackScript.Bytes.Reader

/-!
Numbered scripts as bytes. A node starts with the number of its shape; its parts
follow in order, and its place comes last.
-/

namespace StackScript

open Bytes

namespace Value

def toBytes : Value → List UInt8
  | null => [0]
  | bool b => 1 :: ofBool b
  | int i => 2 :: ofInt i
  | number x => 3 :: ofSingle x
  | string s => 4 :: ofText s
  | function entry => 5 :: ofWord entry

open Reader in
def reader : Reader Value := do
  match (← varint 15 5) with
  | 0 => return null
  | 1 => return bool (← Reader.bool)
  | 2 => return int (← Reader.int)
  | 3 => return number (← single)
  | 4 => return string (← Reader.text)
  | 5 => return function (← word)
  | _ => fail .badValue

end Value

def BinaryOp.toBytes (op : BinaryOp) : List UInt8 := varint op.ctorIdx

def LogicalOp.toBytes (op : LogicalOp) : List UInt8 := varint op.ctorIdx

def UnaryOp.toBytes (op : UnaryOp) : List UInt8 := varint op.ctorIdx

def ExprId.toBytes (id : ExprId) : List UInt8 := ofWord id.index

def StmtId.toBytes (id : StmtId) : List UInt8 := ofWord id.index

def ExprId.reader : Reader ExprId := do return ⟨← Reader.word⟩

def StmtId.reader : Reader StmtId := do return ⟨← Reader.word⟩

namespace ExprShape

def toBytes : ExprShape → List UInt8
  | binary left op right => 0 :: left.toBytes ++ op.toBytes ++ right.toBytes
  | logical left op right => 1 :: left.toBytes ++ op.toBytes ++ right.toBytes
  | unary op operand => 2 :: op.toBytes ++ operand.toBytes
  | group inner => 3 :: inner.toBytes
  | literal value => 4 :: value.toBytes
  | name text => 5 :: ofText text
  | function body => 6 :: body.toBytes
  | call callee arguments => 7 :: callee.toBytes ++ ofList ExprId.toBytes arguments
  | index callee arguments => 8 :: callee.toBytes ++ ofList ExprId.toBytes arguments
  | member parent child => 9 :: parent.toBytes ++ child.toBytes

open Reader in
def reader : Reader ExprShape := do
  match (← varint 15 5) with
  | 0 => return binary (← ExprId.reader) (← alternative BinaryOp.all) (← ExprId.reader)
  | 1 => return logical (← ExprId.reader) (← alternative LogicalOp.all) (← ExprId.reader)
  | 2 => return unary (← alternative UnaryOp.all) (← ExprId.reader)
  | 3 => return group (← ExprId.reader)
  | 4 => return literal (← Value.reader)
  | 5 => return name (← text)
  | 6 => return function (← StmtId.reader)
  | 7 => return call (← ExprId.reader) (← array ExprId.reader).toList
  | 8 => return index (← ExprId.reader) (← array ExprId.reader).toList
  | 9 => return member (← ExprId.reader) (← ExprId.reader)
  | _ => fail .badValue

end ExprShape

namespace StmtShape

def toBytes : StmtShape → List UInt8
  | empty => [0]
  | declare name value => 1 :: ofText name ++ value.toBytes
  | block body => 2 :: ofList StmtId.toBytes body
  | returnNull => [3]
  | returnValue value => 4 :: value.toBytes
  | branch condition body other =>
    5 :: condition.toBytes ++ body.toBytes ++ ofOption StmtId.toBytes other
  | whileDo condition body => 6 :: condition.toBytes ++ body.toBytes
  | expression value => 7 :: value.toBytes
  | assign target value => 8 :: target.toBytes ++ value.toBytes

open Reader in
def reader : Reader StmtShape := do
  match (← varint 15 5) with
  | 0 => return empty
  | 1 => return declare (← text) (← ExprId.reader)
  | 2 => return block (← array StmtId.reader).toList
  | 3 => return returnNull
  | 4 => return returnValue (← ExprId.reader)
  | 5 => return branch (← ExprId.reader) (← StmtId.reader) (← option StmtId.reader)
  | 6 => return whileDo (← ExprId.reader) (← StmtId.reader)
  | 7 => return expression (← ExprId.reader)
  | 8 => return assign (← ExprId.reader) (← ExprId.reader)
  | _ => fail .badValue

end StmtShape

def ExprNode.toBytes (n : ExprNode) : List UInt8 := n.shape.toBytes ++ ofPosition n.position

def ExprNode.reader : Reader ExprNode := do return ⟨← ExprShape.reader, ← Reader.position⟩

def StmtNode.toBytes (n : StmtNode) : List UInt8 := n.shape.toBytes ++ ofPosition n.position

def StmtNode.reader : Reader StmtNode := do return ⟨← StmtShape.reader, ← Reader.position⟩

namespace NumberedScript

def toBytes (s : NumberedScript) : List UInt8 :=
  ofList ExprNode.toBytes s.table.exprs.toList ++
    ofList StmtNode.toBytes s.table.stmts.toList ++ s.root.toBytes

def reader : Reader NumberedScript := do
  let exprs ← Reader.array ExprNode.reader
  let stmts ← Reader.array StmtNode.reader
  return ⟨⟨exprs, stmts⟩, ← StmtId.reader⟩

/-- Reads a script from the front of `bytes`. -/
def ofBytes (bytes : List UInt8) : Except ReadFault NumberedScript :=
  (reader bytes).map Prod.fst

end NumberedScript

end StackScript
