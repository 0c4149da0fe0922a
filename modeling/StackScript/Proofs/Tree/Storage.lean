import StackScript.Tree.Bytes
import StackScript.Proofs.Bytes.Reading

/-!
Numbered scripts kept as bytes. Each node is accepted from the bytes that it is written as,
with one lemma for each kind of data and one case for each shape, and so is a whole script,
whatever its nodes are and whatever they refer to.
-/

namespace StackScript

open Bytes Reader

section Fits

def Value.Storable : Value → Prop
  | .string s => TextFits s
  | _ => True

def ExprShape.Storable : ExprShape → Prop
  | .literal value => value.Storable
  | .name text => TextFits text
  | .call _ arguments | .index _ arguments => arguments.length < lengthLimit
  | _ => True

def StmtShape.Storable : StmtShape → Prop
  | .declare name _ => TextFits name
  | .block body => body.length < lengthLimit
  | _ => True

def ExprNode.Storable (n : ExprNode) : Prop := n.shape.Storable ∧ PositionFits n.position

def StmtNode.Storable (n : StmtNode) : Prop := n.shape.Storable ∧ PositionFits n.position

/-- No list and no text of the script is longer than a word can tell, as is the case with
all that a memory can hold. -/
structure NumberedScript.Storable (s : NumberedScript) : Prop where
  exprs : ListFits ExprNode.Storable s.table.exprs.toList
  stmts : ListFits StmtNode.Storable s.table.stmts.toList

end Fits

theorem Value.accepts {v : Value} (h : v.Storable) : Value.reader.Accepts v.toBytes v := by
  cases v with
  | null => exact accepts_tag 0 (by decide) (.pure _)
  | bool b => exact accepts_tag 1 (by decide) ((accepts_bool b).ends rfl)
  | int i => exact accepts_tag 2 (by decide) ((accepts_int i).ends rfl)
  | number x => exact accepts_tag 3 (by decide) ((accepts_single x).ends rfl)
  | string s => exact accepts_tag 4 (by decide) ((accepts_text h).ends rfl)
  | function entry => exact accepts_tag 5 (by decide) ((accepts_word entry).ends rfl)

section Operators

theorem BinaryOp.accepts (op : BinaryOp) : (alternative BinaryOp.all).Accepts op.toBytes op := by
  cases op <;> exact accepts_alternative (by decide) rfl

theorem LogicalOp.accepts (op : LogicalOp) :
    (alternative LogicalOp.all).Accepts op.toBytes op := by
  cases op <;> exact accepts_alternative (by decide) rfl

theorem UnaryOp.accepts (op : UnaryOp) : (alternative UnaryOp.all).Accepts op.toBytes op := by
  cases op <;> exact accepts_alternative (by decide) rfl

end Operators

section Numbers

theorem ExprId.accepts (id : ExprId) : ExprId.reader.Accepts id.toBytes id :=
  (accepts_word id.index).ends rfl

theorem StmtId.accepts (id : StmtId) : StmtId.reader.Accepts id.toBytes id :=
  (accepts_word id.index).ends rfl

theorem ExprId.accepts_list {ids : List ExprId} (h : ids.length < lengthLimit) :
    (array ExprId.reader).Accepts (ofList ExprId.toBytes ids) ids.toArray :=
  accepts_array ids.toArray ⟨h, fun _ _ => trivial⟩ fun id _ => id.accepts

theorem StmtId.accepts_list {ids : List StmtId} (h : ids.length < lengthLimit) :
    (array StmtId.reader).Accepts (ofList StmtId.toBytes ids) ids.toArray :=
  accepts_array ids.toArray ⟨h, fun _ _ => trivial⟩ fun id _ => id.accepts

end Numbers

section Nodes

theorem ExprShape.accepts {shape : ExprShape} (h : shape.Storable) :
    ExprShape.reader.Accepts shape.toBytes shape := by
  cases shape with
  | binary left op right =>
    simp only [toBytes, List.cons_append, List.append_assoc]
    exact accepts_tag 0 (by decide)
      (left.accepts.bind (op.accepts.bind (right.accepts.ends rfl)))
  | logical left op right =>
    simp only [toBytes, List.cons_append, List.append_assoc]
    exact accepts_tag 1 (by decide)
      (left.accepts.bind (op.accepts.bind (right.accepts.ends rfl)))
  | unary op operand =>
    exact accepts_tag 2 (by decide) (op.accepts.bind (operand.accepts.ends rfl))
  | group inner => exact accepts_tag 3 (by decide) (inner.accepts.ends rfl)
  | literal value => exact accepts_tag 4 (by decide) ((Value.accepts h).ends rfl)
  | name text => exact accepts_tag 5 (by decide) ((accepts_text h).ends rfl)
  | function body => exact accepts_tag 6 (by decide) (body.accepts.ends rfl)
  | call callee arguments =>
    exact accepts_tag 7 (by decide) (callee.accepts.bind ((ExprId.accepts_list h).ends rfl))
  | index callee arguments =>
    exact accepts_tag 8 (by decide) (callee.accepts.bind ((ExprId.accepts_list h).ends rfl))
  | member parent child =>
    exact accepts_tag 9 (by decide) (parent.accepts.bind (child.accepts.ends rfl))

theorem StmtShape.accepts {shape : StmtShape} (h : shape.Storable) :
    StmtShape.reader.Accepts shape.toBytes shape := by
  cases shape with
  | empty => exact accepts_tag 0 (by decide) (.pure _)
  | declare name value =>
    exact accepts_tag 1 (by decide) ((accepts_text h).bind (value.accepts.ends rfl))
  | block body => exact accepts_tag 2 (by decide) ((StmtId.accepts_list h).ends rfl)
  | returnNull => exact accepts_tag 3 (by decide) (.pure _)
  | returnValue value => exact accepts_tag 4 (by decide) (value.accepts.ends rfl)
  | branch condition body other =>
    simp only [toBytes, List.cons_append, List.append_assoc]
    exact accepts_tag 5 (by decide) (condition.accepts.bind
      (body.accepts.bind ((accepts_option StmtId.accepts other).ends rfl)))
  | whileDo condition body =>
    exact accepts_tag 6 (by decide) (condition.accepts.bind (body.accepts.ends rfl))
  | expression value => exact accepts_tag 7 (by decide) (value.accepts.ends rfl)
  | assign target value =>
    exact accepts_tag 8 (by decide) (target.accepts.bind (value.accepts.ends rfl))

theorem ExprNode.accepts {n : ExprNode} (h : n.Storable) :
    ExprNode.reader.Accepts n.toBytes n :=
  (ExprShape.accepts h.1).bind ((accepts_position h.2).ends rfl)

theorem StmtNode.accepts {n : StmtNode} (h : n.Storable) :
    StmtNode.reader.Accepts n.toBytes n :=
  (StmtShape.accepts h.1).bind ((accepts_position h.2).ends rfl)

end Nodes

namespace NumberedScript

theorem accepts {s : NumberedScript} (h : s.Storable) : reader.Accepts s.toBytes s := by
  have hexprs := accepts_array s.table.exprs h.exprs fun _ => ExprNode.accepts
  have hstmts := accepts_array s.table.stmts h.stmts fun _ => StmtNode.accepts
  refine Accepts.of_eq ?_ (List.append_assoc ..)
  exact hexprs.bind (hstmts.bind (s.root.accepts.ends rfl))

/-- A script comes back from its bytes, whatever stands behind them. -/
theorem ofBytes_toBytes_append {s : NumberedScript} (h : s.Storable) (behind : List UInt8) :
    ofBytes (s.toBytes ++ behind) = .ok s := by
  unfold ofBytes
  rw [(accepts h).whole behind]
  rfl

/-- A branch within itself, a call of a NaN, and numbers that no node has. -/
def tangled : NumberedScript where
  table :=
    { exprs := #[⟨.literal (.number Single.nan), ⟨"f", 1, 1⟩⟩,
        ⟨.call ⟨0⟩ [⟨7⟩, ⟨0x80000000⟩], ⟨"f", 1, 2⟩⟩]
      stmts := #[⟨.branch ⟨1⟩ ⟨0⟩ (some ⟨0⟩), ⟨"f", 300, 1⟩⟩] }
  root := ⟨9⟩

theorem ofBytes_toBytes_append_tangled :
    tangled.Storable ∧ ofBytes (tangled.toBytes ++ [0]) = .ok tangled := by
  have hfile : TextFits "f" := by
    unfold TextFits
    decide
  have hcall : 2 < lengthLimit := by decide
  have hstorable : tangled.Storable :=
    { exprs := ⟨hcall, List.forall_mem_cons.2 ⟨⟨trivial, hfile⟩,
        List.forall_mem_singleton.2 ⟨hcall, hfile⟩⟩⟩
      stmts := ⟨by decide, List.forall_mem_singleton.2 ⟨trivial, hfile⟩⟩ }
  exact ⟨hstorable, ofBytes_toBytes_append hstorable [0]⟩

end NumberedScript

end StackScript
