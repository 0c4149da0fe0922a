import StackScript.Proofs.Code.Emission

/-!
Emitting does not look at what has been told. An emitter that starts behind earlier
entries adds the same code and tells the same, behind those entries. Parts that are
emitted aside share the entries with the rest, so the lemma about them is about the
part at any place.
-/

namespace StackScript

namespace Emitter

/-- The same emitter, behind entries that were told before. -/
def behind (earlier : Array Diagnostic) (m : Emitter) : Emitter :=
  { m with faults := earlier ++ m.faults }

/-- What a part leaves behind earlier entries is what it leaves without them, behind
those entries. -/
def Oblivious (part : Emitter → Emitter) : Prop :=
  ∀ earlier m, part (m.behind earlier) = (part m).behind earlier

section Parts

variable (earlier : Array Diagnostic) (m : Emitter) (position : Position)

@[simp] theorem start_behind : (m.behind earlier).start = m.start := rfl

@[simp] theorem lines_behind : (m.behind earlier).lines = m.lines := rfl

@[simp] theorem here_behind : (m.behind earlier).here = m.here := rfl

@[simp] theorem inside_behind (gap : Nat) :
    (m.behind earlier).inside gap = (m.inside gap).behind earlier := rfl

@[simp] theorem add_behind (opcode : Opcode) (operand : Operand) (operands : List Position) :
    (m.behind earlier).add opcode operand position operands =
      (m.add opcode operand position operands).behind earlier := rfl

@[simp] theorem emitBare_behind (opcode : Opcode) (operands : List Position) :
    (m.behind earlier).emitBare opcode position operands =
      (m.emitBare opcode position operands).behind earlier := rfl

@[simp] theorem report_behind (fault : Fault) (argument : String) :
    (m.behind earlier).report position fault argument =
      (m.report position fault argument).behind earlier := by
  unfold report behind
  dsimp only
  rw [Array.append_push]

@[simp] theorem operand_behind (n : Nat) :
    (m.behind earlier).operand n position =
      ((m.operand n position).1, (m.operand n position).2.behind earlier) := by
  unfold operand
  cases Operand.ofNat? n with
  | ok operand => rfl
  | error e => simp only [report_behind]

@[simp] theorem emit_behind (opcode : Opcode) (n : Nat) :
    (m.behind earlier).emit opcode n position = (m.emit opcode n position).behind earlier := by
  simp only [emit, operand_behind, add_behind]

@[simp] theorem emitString_behind (opcode : Opcode) (text : String) :
    (m.behind earlier).emitString opcode text position =
      (m.emitString opcode text position).behind earlier :=
  emit_behind earlier { m with strings := m.strings.push text } position opcode m.strings.size

@[simp] theorem emitLiteral_behind (value : Value) :
    (m.behind earlier).emitLiteral value position =
      (m.emitLiteral value position).behind earlier := by
  cases value with
  | null => rfl
  | bool b => rfl
  | int i =>
    exact emit_behind earlier { m with ints := m.ints.push i } position .pushInt m.ints.size
  | number x =>
    exact emit_behind earlier { m with numbers := m.numbers.push x } position .pushNumber
      m.numbers.size
  | string text => exact emitString_behind earlier m position .pushString text
  | function entry => exact emit_behind earlier m position .pushFunction entry.toNat

@[simp] theorem declare_behind (name : String) :
    (m.behind earlier).declare name = (m.declare name).behind earlier := by
  unfold declare
  change (if m.declared.contains name then _ else _) = _
  split <;> rfl

theorem join_behind (jump : Opcode) (n : Nat) (inner : Emitter) :
    (m.behind earlier).join jump n position (inner.behind earlier) =
      (m.join jump n position inner).behind earlier := by
  unfold join
  have hinner : { inner.behind earlier with start := m.start, lines := m.lines } =
      { inner with start := m.start, lines := m.lines }.behind earlier := rfl
  simp only [start_behind, lines_behind, hinner, operand_behind, add_behind]
  rfl

theorem jumpOver_behind (jump : Opcode) (part : Emitter → Emitter) (hpart : Oblivious part) :
    (m.behind earlier).jumpOver jump position part =
      (m.jumpOver jump position part).behind earlier := by
  rw [jumpOver_eq_join, jumpOver_eq_join, inside_behind, hpart, lines_behind, here_behind,
    join_behind]

end Parts

end Emitter

open Emitter

def Expr.Oblivious (e : Expr) : Prop :=
  ∀ (earlier : Array Diagnostic) (m : Emitter),
    e.emit (m.behind earlier) = (e.emit m).behind earlier

def Stmt.Oblivious (t : Stmt) : Prop :=
  ∀ (earlier : Array Diagnostic) (m : Emitter),
    t.emit (m.behind earlier) = (t.emit m).behind earlier

section Lists

variable (earlier : Array Diagnostic) (m : Emitter)

theorem emitArguments_behind {es : List Expr} (h : ∀ e ∈ es, e.Oblivious) :
    emitArguments (m.behind earlier) es = (emitArguments m es).behind earlier := by
  induction es generalizing m with
  | nil => rfl
  | cons e es ih =>
    obtain ⟨he, hes⟩ := List.forall_mem_cons.1 h
    rw [emitArguments, emitArguments, he earlier m, ih (e.emit m) hes]

theorem emitStatements_behind {ts : List Stmt} (h : ∀ t ∈ ts, t.Oblivious) :
    emitStatements (m.behind earlier) ts = (emitStatements m ts).behind earlier := by
  induction ts generalizing m with
  | nil => rfl
  | cons t ts ih =>
    obtain ⟨ht, hts⟩ := List.forall_mem_cons.1 h
    rw [emitStatements, emitStatements, ht earlier m, ih (t.emit m) hts]

theorem emitCall_behind {callee : Expr} {arguments : List Expr} (hc : callee.Oblivious)
    (h : ∀ e ∈ arguments, e.Oblivious) :
    (emitArguments (m.behind earlier) arguments).emitCallee callee (fun m => callee.emit m) =
      ((emitArguments m arguments).emitCallee callee fun m => callee.emit m).behind earlier := by
  rw [emitArguments_behind earlier m h]
  have hcallee : ((emitArguments m arguments).behind earlier).callee? callee =
      (emitArguments m arguments).callee? callee := by cases callee <;> rfl
  unfold emitCallee
  rw [hcallee]
  cases (emitArguments m arguments).callee? callee with
  | some named => exact emitString_behind _ _ _ _ _
  | none => exact hc _ _

end Lists

theorem emit_oblivious : Tree.Cases Expr.Oblivious Stmt.Oblivious where
  literal value p earlier m := by simp only [Expr.emit, emitLiteral_behind]
  name text p earlier m := by simp only [Expr.emit, emitString_behind]
  group inner p h earlier m := by
    rw [Expr.emit, Expr.emit]
    exact h earlier m
  unary op operand p h earlier m := by
    simp only [Expr.emit, h earlier m, emitBare_behind]
  binary op left right p hleft hright earlier m := by
    simp only [Expr.emit, hleft earlier m, hright earlier (left.emit m), emitBare_behind]
  logical op left right p hleft hright earlier m := by
    have hrest : Emitter.Oblivious fun m => right.emit (m.emit .pop 1 p) := fun earlier m => by
      simp only [emit_behind, hright earlier _]
    simp only [Expr.emit_logical, hleft earlier m]
    cases op with
    | and => simp only [emitBare_behind, jumpOver_behind _ _ _ _ _ hrest]
    | or => simp only [emitBare_behind, jumpOver_behind _ _ _ _ _ hrest]
  function body p h earlier m := by
    have hbody : Emitter.Oblivious fun m => (body.emit m).emitBare .ret p := fun earlier m => by
      simp only [h earlier m, emitBare_behind]
    simp only [Expr.emit, here_behind, jumpOver_behind _ _ _ _ _ hbody, emit_behind]
  call callee arguments p hc h earlier m := by
    simp only [Expr.emit, emitCall_behind earlier m hc h, emit_behind]
  index callee arguments p _ _ earlier m := by
    simp only [Expr.emit, report_behind, emitBare_behind]
  member parent child p _ _ earlier m := by
    rw [Expr.emit, Expr.emit]
    cases (Expr.member parent child p).dotted? with
    | some path => exact emitString_behind _ _ _ _ _
    | none => simp only [report_behind, emitBare_behind]
  empty p earlier m := by simp only [Stmt.emit]
  declare name value p h earlier m := by
    simp only [Stmt.emit, declare_behind, h earlier _, emitString_behind]
  block body p h earlier m := by
    simp only [Stmt.emit, emitStatements_behind earlier m h]
  returnNull p earlier m := by simp only [Stmt.emit, emit_behind]
  returnValue value p h earlier m := by
    simp only [Stmt.emit, h earlier m, emit_behind]
  ifThen condition body p hcondition hbody earlier m := by
    simp only [Stmt.emit, hcondition earlier m, emitBare_behind,
      jumpOver_behind earlier _ p .ifTrueGoto (fun m => body.emit m) hbody]
  ifElse condition body other p hcondition hbody hother earlier m := by
    simp only [Stmt.emit_ifElse, hcondition earlier m, emitBare_behind, inside_behind,
      hbody earlier _, here_behind, lines_behind, join_behind,
      jumpOver_behind earlier _ p .goto (fun m => other.emit m) hother]
  whileDo condition body p hcondition hbody earlier m := by
    simp only [Stmt.emit_whileDo, hcondition earlier m, emitBare_behind, inside_behind,
      hbody earlier _, here_behind, lines_behind, operand_behind, join_behind, add_behind]
  discard callee arguments q p hc h earlier m := by
    simp only [Stmt.emit, emitCall_behind earlier m hc h, emit_behind]
  value value p hcall h earlier m := by
    rw [Stmt.emit, Stmt.emit, h earlier m, emit_behind]
    all_goals exact hcall
  assign text q value p h earlier m := by
    simp only [Stmt.emit, h earlier m, emitString_behind]
  assignOther target value p hname _ _ earlier m := by
    rw [Stmt.emit, Stmt.emit, report_behind]
    all_goals exact hname

end StackScript
