import StackScript.Proofs.Code.Parts

/-!
Jumps that get their targets afterwards. A jump forward may as well be added with no target at
once and be patched when all that it jumps over stands behind it. Lines that already stand in
front of a part only count for its addresses, so the part adds the same lines behind them as it
gives when it is emitted aside; the target is in both ways told behind what the part tells. Main
statements: what is emitted for each expression and statement with a jump forward is what
patching makes of it.
-/

namespace StackScript

namespace Emitter

/-- Points the jump at this address to the next instruction. -/
def patch (m : Emitter) (address : Nat) : Emitter :=
  let slot := address - m.start
  let line := m.lines.getD slot default
  let (target, m) := m.operand m.here line.origin.position
  { m with lines := m.lines.setIfInBounds slot { line with command.operand := target } }

/-- An emitter that starts further to the front, with the lines from there on. -/
def under (m : Emitter) (start : Nat) (front : Array Line) : Emitter :=
  { m with start, lines := front ++ m.lines }

/-- The part adds the same behind any lines, and it adds all behind them. -/
def Grows (part : Emitter → Emitter) : Prop :=
  ∀ (m : Emitter) (start : Nat) (front : Array Line), m.start = start + front.size →
    part (m.under start front) = (part m).under start front ∧ (part m).start = m.start

theorem start_operand (m : Emitter) (n : Nat) (p : Position) :
    (m.operand n p).2.start = m.start := by
  unfold Emitter.operand
  split <;> rfl

theorem lines_operand (m : Emitter) (n : Nat) (p : Position) :
    (m.operand n p).2.lines = m.lines := by
  unfold Emitter.operand
  split <;> rfl

/-- What was emitted aside stands behind the jump, and what the target tells behind what it
tells. -/
theorem join_eq_enclose (m : Emitter) (jump : Opcode) (n : Nat) (p : Position) (inner : Emitter) :
    m.join jump n p inner =
      m.enclose ⟨⟨jump, (inner.operand n p).1⟩, ⟨p, []⟩⟩ (inner.operand n p).2 := by
  unfold join
  rw [operand_with_lines]
  unfold Emitter.operand
  split <;> rfl

section Under

variable (m : Emitter) (start : Nat) (front : Array Line)

theorem operand_under (n : Nat) (p : Position) :
    (m.under start front).operand n p =
      ((m.operand n p).1, (m.operand n p).2.under start front) := by
  unfold Emitter.operand
  split <;> rfl

theorem add_under (opcode : Opcode) (operand : Operand) (p : Position) (ps : List Position) :
    (m.under start front).add opcode operand p ps =
      (m.add opcode operand p ps).under start front := by
  unfold Emitter.add under
  dsimp only
  rw [Array.push_append]

theorem emit_under (opcode : Opcode) (n : Nat) (p : Position) :
    (m.under start front).emit opcode n p = (m.emit opcode n p).under start front := by
  unfold Emitter.emit
  rw [operand_under]
  exact add_under _ start front opcode _ p []

theorem enclose_under (line : Line) (inner : Emitter) :
    (m.under start front).enclose line inner = (m.enclose line inner).under start front := by
  unfold enclose under
  dsimp only
  rw [Array.push_append, Array.append_assoc]

variable {m start front} (h : m.start = start + front.size)

include h

theorem here_under : (m.under start front).here = m.here := by
  simp only [here, under, h, Array.size_append, Nat.add_assoc]

theorem inside_under (gap : Nat) : (m.under start front).inside gap = m.inside gap := by
  unfold inside
  rw [here_under h]
  rfl

end Under

namespace Grows

variable {first second part : Emitter → Emitter}

theorem next (h : Grows first) (h' : Grows second) : Grows fun m => second (first m) := by
  intro m start front hstart
  obtain ⟨heq, hkept⟩ := h m start front hstart
  obtain ⟨heq', hkept'⟩ := h' (first m) start front (hkept.trans hstart)
  dsimp only
  exact ⟨by rw [heq, heq'], hkept'.trans hkept⟩

theorem emit (opcode : Opcode) (n : Nat) (p : Position) : Grows fun m => m.emit opcode n p :=
  fun m start front _ => ⟨m.emit_under start front opcode n p, m.start_operand n p⟩

theorem hold (c : Constant) : Grows fun m => m.hold c := by
  intro m start front _
  cases c <;> exact ⟨rfl, rfl⟩

/-- A part that is emitted aside does not see the lines in front of it. -/
theorem behindJump (jump : Opcode) (extra : Nat) (p : Position) (part : Emitter → Emitter) :
    Grows (behindJump jump extra p part) := by
  intro m start front hstart
  unfold Emitter.behindJump
  rw [inside_under hstart, here_under hstart, join_eq_enclose, join_eq_enclose]
  exact ⟨m.enclose_under start front _ _, rfl⟩

theorem repeated (p : Position) {test : Emitter → Emitter} (h : Grows test)
    (body : Emitter → Emitter) : Grows (repeated p test body) := by
  intro m start front hstart
  obtain ⟨heq, hkept⟩ := h m start front hstart
  have hstart' := hkept.trans hstart
  unfold Emitter.repeated
  rw [heq, inside_under hstart', here_under hstart', here_under hstart]
  dsimp only
  rw [join_eq_enclose, join_eq_enclose, enclose_under, add_under]
  exact ⟨rfl, hkept⟩

theorem of_part (h : Part part) : Grows part := by
  induction h with
  | nothing => exact fun _ _ _ _ => ⟨rfl, rfl⟩
  | next _ _ ih ih' => exact ih.next ih'
  | line opcode operand p ps =>
    exact fun m start front _ => ⟨m.add_under start front opcode operand p ps, rfl⟩
  | counted opcode n p => exact .emit opcode n p
  | constant opcode c p =>
    intro m start front hstart
    have hsize : (m.under start front).poolSize c.pool = m.poolSize c.pool := by
      cases c <;> rfl
    change (Emitter.emit _ opcode ((m.under start front).poolSize c.pool) p) = _ ∧ _
    rw [hsize]
    exact (hold c).next (.emit opcode (m.poolSize c.pool) p) m start front hstart
  | report => exact fun _ _ _ _ => ⟨rfl, rfl⟩
  | declare name =>
    intro m start front _
    by_cases hold : m.declared.contains name
    · simp only [Emitter.declare, under, hold, if_true, and_self]
    · simp only [Emitter.declare, under, hold]
      exact ⟨rfl, rfl⟩
  | behindJump jump extra p => exact .behindJump jump extra p _
  | @overBody body p =>
    intro m start front hstart
    have hover := (Grows.behindJump .goto 0 p body).next (.emit .pushFunction (m.here + 1) p)
    unfold Emitter.overBody
    rw [here_under hstart]
    exact hover m start front hstart
  | repeated p _ _ ih => exact ih.repeated p _
  | declared _ ih => exact fun m start front hstart => ih m.declared m start front hstart

/-- What is added behind a line is what is emitted aside. -/
theorem behind (h : Grows part) (m : Emitter) (opcode : Opcode) (operand : Operand)
    (p : Position) :
    part (m.add opcode operand p) =
      m.enclose ⟨⟨opcode, operand⟩, ⟨p, []⟩⟩ (part (m.inside 1)) := by
  have hadd : m.add opcode operand p =
      (m.inside 1).under m.start (m.lines.push ⟨⟨opcode, operand⟩, ⟨p, []⟩⟩) := by
    unfold under
    rw [inside, Array.append_empty]
    rfl
  have hstart : (m.inside 1).start =
      m.start + (m.lines.push ⟨⟨opcode, operand⟩, ⟨p, []⟩⟩).size := by
    rw [Array.size_push]
    rfl
  rw [hadd, (h _ _ _ hstart).1]
  rfl

end Grows

section Patch

theorem setIfInBounds_behind (lines more : Array Line) (line line' : Line) :
    (lines.push line ++ more).setIfInBounds lines.size line' = lines.push line' ++ more := by
  apply Array.toList_inj.1
  rw [Array.toList_setIfInBounds, Array.toList_append, Array.toList_append, Array.toList_push,
    Array.toList_push, List.append_assoc, List.append_assoc, ← Array.length_toList,
    List.set_append_right _ _ (Nat.le_refl _), Nat.sub_self]
  rfl

variable (m inner : Emitter) (jump : Opcode) (p : Position)

theorem here_enclose (line : Line) :
    (m.enclose line inner).here = m.here + 1 + inner.lines.size := by
  simp only [here, enclose, Array.size_append, Array.size_push]
  omega

/-- Patching gives a jump the target that it would have had at once. -/
theorem patch_enclose :
    (m.enclose ⟨⟨jump, .zero⟩, ⟨p, []⟩⟩ inner).patch m.here =
      m.join jump (m.here + 1 + inner.lines.size) p inner := by
  have hslot : m.here - (m.enclose ⟨⟨jump, .zero⟩, ⟨p, []⟩⟩ inner).start = m.lines.size := by
    rw [here, enclose, Nat.add_sub_cancel_left]
  have hline : (m.enclose ⟨⟨jump, .zero⟩, ⟨p, []⟩⟩ inner).lines.getD m.lines.size default =
      ⟨⟨jump, .zero⟩, ⟨p, []⟩⟩ := by
    rw [Array.getD_eq_getD_getElem?, enclose, Array.getElem?_append_left (by simp),
      Array.getElem?_push_size, Option.getD_some]
  rw [join_eq_enclose]
  unfold patch
  dsimp only
  rw [here_enclose, hslot, hline]
  unfold enclose
  rw [operand_with_lines]
  dsimp only
  rw [lines_operand, setIfInBounds_behind]

/-- A line behind the part may as well be added last. -/
theorem join_add (n : Nat) (opcode : Opcode) (operand : Operand) (q : Position) :
    m.join jump n p (inner.add opcode operand q) =
      (m.join jump n p inner).add opcode operand q := by
  rw [join_eq_enclose, join_eq_enclose]
  unfold Emitter.operand enclose Emitter.add
  split
  · dsimp only
    rw [Array.append_push]
  · unfold Emitter.report
    dsimp only
    rw [Array.append_push]

theorem enclose_emit (line : Line) (opcode : Opcode) (n : Nat) (q : Position) :
    (m.enclose line inner).emit opcode n q = m.enclose line (inner.emit opcode n q) := by
  unfold Emitter.emit enclose
  rw [operand_with_lines]
  unfold Emitter.add
  dsimp only
  rw [Array.push_append, lines_operand]

variable {m p} {part : Emitter → Emitter} (h : Grows part)

include h

theorem Grows.behind_jump : part (m.emit jump 0 p) =
    m.enclose ⟨⟨jump, .zero⟩, ⟨p, []⟩⟩ (part (m.inside 1)) := by
  have hjump : m.emit jump 0 p = m.add jump .zero p := emit_eq rfl
  rw [hjump, h.behind]

/-- A jump over a part, added before the part with no target. -/
theorem Grows.jumpOver_eq :
    m.jumpOver jump p part = (part (m.emit jump 0 p)).patch m.here := by
  rw [h.behind_jump, patch_enclose, jumpOver_eq_join]

/-- A jump over a part and one more line. -/
theorem Grows.patch_emit (opcode : Opcode) (n : Nat) (q : Position) :
    ((part (m.emit jump 0 p)).emit opcode n q).patch m.here =
      let inner := part (m.inside 1)
      let last := inner.operand n q
      (m.join jump (m.here + 1 + inner.lines.size + 1) p last.2).add opcode last.1 q := by
  have hsize : ((part (m.inside 1)).emit opcode n q).lines.size =
      (part (m.inside 1)).lines.size + 1 := by
    unfold Emitter.emit Emitter.add
    rw [Array.size_push, lines_operand]
  rw [h.behind_jump, enclose_emit, patch_enclose, hsize]
  exact join_add _ _ _ _ _ _ _ _

end Patch

end Emitter

open Emitter

theorem Expr.emit_grows {e : Expr} (h : e.AddressFree) : Grows fun m => e.emit m :=
  .of_part (emit_part.expr e h)

theorem Stmt.emit_grows {t : Stmt} (h : t.AddressFree) : Grows fun m => t.emit m :=
  .of_part (emit_part.stmt t h)

section Patched

variable (m : Emitter) (p : Position)

theorem Expr.emit_logical_patched (op : LogicalOp) (left : Expr) {right : Expr}
    (h : right.AddressFree) :
    (Expr.logical op left right p).emit m =
      let test := match op with
        | .and => ((left.emit m).emitBare .dup p).emitBare .not p
        | .or => (left.emit m).emitBare .dup p
      let rest := right.emit ((test.emit .ifTrueGoto 0 p).emit .pop 1 p)
      ((rest.patch test.here).emitBare .not p).emitBare .not p := by
  have hrest : Grows fun m => right.emit (m.emit .pop 1 p) :=
    (Grows.emit .pop 1 p).next (emit_grows h)
  rw [Expr.emit_logical]
  exact congrArg (fun m : Emitter => (m.emitBare .not p).emitBare .not p) (hrest.jumpOver_eq _)

theorem Expr.emit_function_patched {body : Stmt} (h : body.AddressFree) :
    (Expr.function body p).emit m =
      let whole := (body.emit (m.emit .goto 0 p)).emitBare .ret p
      (whole.patch m.here).emit .pushFunction (m.here + 1) p := by
  have hbody : Grows fun m => (body.emit m).emitBare .ret p :=
    (Stmt.emit_grows h).next (.of_part (.bare .ret p [] rfl))
  rw [Expr.emit, hbody.jumpOver_eq]

theorem Stmt.emit_ifThen_patched (condition : Expr) {body : Stmt} (h : body.AddressFree) :
    (Stmt.ifThen condition body p).emit m =
      let test := (condition.emit m).emitBare .not p
      (body.emit (test.emit .ifTrueGoto 0 p)).patch test.here := by
  rw [Stmt.emit, (emit_grows h).jumpOver_eq]

theorem Stmt.emit_ifElse_patched (condition : Expr) {body other : Stmt} (h : body.AddressFree)
    (h' : other.AddressFree) :
    (Stmt.ifElse condition body other p).emit m =
      let test := (condition.emit m).emitBare .not p
      let whole := body.emit (test.emit .ifTrueGoto 0 p)
      let rest := other.emit ((whole.emit .goto 0 p).patch test.here)
      rest.patch whole.here := by
  rw [Stmt.emit_ifElse]
  generalize (condition.emit m).emitBare .not p = test
  dsimp only
  generalize hinner : body.emit (test.inside 1) = inner
  have hjoin : ((body.emit (test.emit .ifTrueGoto 0 p)).emit .goto 0 p).patch test.here =
      (test.join .ifTrueGoto (test.here + 1 + inner.lines.size + 1) p inner).emit .goto 0 p := by
    rw [← hinner]
    exact (emit_grows h).patch_emit .ifTrueGoto .goto 0 p
  have hhere : (body.emit (test.emit .ifTrueGoto 0 p)).here =
      (test.join .ifTrueGoto (test.here + 1 + inner.lines.size + 1) p inner).here := by
    rw [(emit_grows h).behind_jump, hinner, join_eq_enclose, here_enclose, here_enclose,
      lines_operand]
  rw [hjoin, hhere, (emit_grows h').jumpOver_eq]

theorem Stmt.emit_whileDo_patched (condition : Expr) {body : Stmt} (h : body.AddressFree) :
    (Stmt.whileDo condition body p).emit m =
      let test := (condition.emit m).emitBare .not p
      let whole := body.emit (test.emit .ifTrueGoto 0 p)
      (whole.emit .goto m.here p).patch test.here := by
  rw [Stmt.emit_whileDo]
  exact ((emit_grows h).patch_emit _ .goto m.here p).symm

end Patched

end StackScript
