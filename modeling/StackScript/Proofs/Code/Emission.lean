import StackScript.Proofs.Code.Layout
import StackScript.Proofs.Tree.Induction

/-!
Where emitting comes to. A part adds as many instructions and declares as many names
as the tree says, whatever stands in front of it, so the address of each part is
known before any of it is emitted.
-/

namespace StackScript

namespace Emitter

/-- The place that the emitter has come to. -/
def scope (m : Emitter) : Scope := ⟨m.here, m.declared⟩

/-- The emitter for a part that will stand `gap` instructions further on. -/
def inside (m : Emitter) (gap : Nat) : Emitter := { m with start := m.here + gap, lines := #[] }

@[simp] theorem scope_inside (m : Emitter) (gap : Nat) : (m.inside gap).scope = m.scope.skip gap :=
  rfl

theorem callee?_eq (m : Emitter) (callee : Expr) : m.callee? callee = m.scope.callee? callee := by
  cases callee <;> rfl

section Operand

variable {m : Emitter} {n : Nat} {p : Position}

theorem operand_eq {operand : Operand} (h : operand.val = n) : m.operand n p = (operand, m) := by
  subst h
  simp [Emitter.operand, Operand.ofNat?]

/-- An operand that is too large is told. -/
theorem operand_of_quiet (h : (m.operand n p).2.faults = #[]) :
    ∃ operand : Operand, operand.val = n := by
  by_cases hn : n < operandLimit
  · exact ⟨⟨n, hn⟩, rfl⟩
  · simp [Emitter.operand, Operand.ofNat?, hn, Emitter.report] at h

end Operand

/-- From one emitter to a later one for the same part of the code. -/
structure Reaches (m m' : Emitter) (s : Scope) : Prop where
  start_eq : m'.start = m.start
  scope_eq : m'.scope = s

namespace Reaches

variable {m m' : Emitter} {s : Scope}

theorem refl (m : Emitter) : m.Reaches m m.scope := ⟨rfl, rfl⟩

theorem here_eq (h : m.Reaches m' s) : m'.here = s.address := congrArg Scope.address h.scope_eq

/-- What is emitted behind starts where the first part has come to. -/
theorem next {m'' : Emitter} (h : m.Reaches m' s) (f : Scope → Scope)
    (h' : m'.Reaches m'' (f m'.scope)) : m.Reaches m'' (f s) := by
  obtain ⟨hstart, rfl⟩ := h
  exact ⟨h'.start_eq.trans hstart, h'.scope_eq⟩

theorem inside {inner : Emitter} (h : m.Reaches m' s) (f : Scope → Scope)
    (h' : (m'.inside 1).Reaches inner (f (m'.inside 1).scope)) :
    (m'.inside 1).Reaches inner (f (s.skip 1)) := by
  obtain ⟨-, rfl⟩ := h
  exact h'

theorem add (h : m.Reaches m' s) (opcode : Opcode) (operand : Operand) (p : Position)
    (ps : List Position) : m.Reaches (m'.add opcode operand p ps) (s.skip 1) := by
  obtain ⟨hstart, rfl⟩ := h
  refine ⟨hstart, ?_⟩
  simp [scope, here, Emitter.add, Scope.skip, Nat.add_assoc]

theorem operand (h : m.Reaches m' s) (n : Nat) (p : Position) :
    m.Reaches (m'.operand n p).2 s := by
  unfold Emitter.operand
  split <;> exact ⟨h.start_eq, h.scope_eq⟩

theorem emit (h : m.Reaches m' s) (opcode : Opcode) (n : Nat) (p : Position) :
    m.Reaches (m'.emit opcode n p) (s.skip 1) :=
  (h.operand n p).add opcode _ p []

theorem emitBare (h : m.Reaches m' s) (opcode : Opcode) (p : Position) (ps : List Position) :
    m.Reaches (m'.emitBare opcode p ps) (s.skip 1) :=
  h.add opcode .zero p ps

theorem emitString (h : m.Reaches m' s) (opcode : Opcode) (text : String) (p : Position) :
    m.Reaches (m'.emitString opcode text p) (s.skip 1) := by
  have hpool : m.Reaches { m' with strings := m'.strings.push text } s :=
    ⟨h.start_eq, h.scope_eq⟩
  exact hpool.emit opcode _ p

theorem emitLiteral (h : m.Reaches m' s) (value : Value) (p : Position) :
    m.Reaches (m'.emitLiteral value p) (s.skip 1) := by
  cases value with
  | null => exact h.emitBare .pushNull p []
  | bool b => exact h.add .pushBool _ p []
  | int i =>
    have hpool : m.Reaches { m' with ints := m'.ints.push i } s := ⟨h.start_eq, h.scope_eq⟩
    exact hpool.emit .pushInt _ p
  | number x =>
    have hpool : m.Reaches { m' with numbers := m'.numbers.push x } s := ⟨h.start_eq, h.scope_eq⟩
    exact hpool.emit .pushNumber _ p
  | string text => exact h.emitString .pushString text p
  | function entry => exact h.emit .pushFunction _ p

theorem report (h : m.Reaches m' s) (p : Position) (fault : Fault) (argument : String) :
    m.Reaches (m'.report p fault argument) s := ⟨h.start_eq, h.scope_eq⟩

theorem declare (h : m.Reaches m' s) (name : String) :
    m.Reaches (m'.declare name) (s.declare name) := by
  obtain ⟨hstart, rfl⟩ := h
  unfold Emitter.declare Scope.declare
  change m.Reaches (if m'.declared.contains name then _ else _)
    (if m'.declared.contains name then _ else _)
  split <;> exact ⟨hstart, rfl⟩

end Reaches

theorem scope_emit (m : Emitter) (opcode : Opcode) (n : Nat) (p : Position) :
    (m.emit opcode n p).scope = m.scope.skip 1 :=
  ((Reaches.refl m).emit opcode n p).scope_eq

theorem scope_emitBare (m : Emitter) (opcode : Opcode) (p : Position) (ps : List Position) :
    (m.emitBare opcode p ps).scope = m.scope.skip 1 :=
  ((Reaches.refl m).emitBare opcode p ps).scope_eq

theorem scope_declare (m : Emitter) (name : String) :
    (m.declare name).scope = m.scope.declare name :=
  ((Reaches.refl m).declare name).scope_eq

/-- Puts a part that was emitted aside behind a jump. -/
def join (m : Emitter) (jump : Opcode) (n : Nat) (p : Position) (inner : Emitter) : Emitter :=
  let target := { inner with start := m.start, lines := m.lines }.operand n p
  (target.2.add jump target.1 p).append inner.lines

theorem jumpOver_eq_join (m : Emitter) (jump : Opcode) (p : Position) (part : Emitter → Emitter) :
    m.jumpOver jump p part =
      m.join jump (m.here + 1 + (part (m.inside 1)).lines.size) p (part (m.inside 1)) := rfl

theorem operand_with_lines (m : Emitter) (start : Nat) (lines : Array Line) (n : Nat)
    (p : Position) :
    { m with start, lines }.operand n p =
      ((m.operand n p).1, { (m.operand n p).2 with start, lines }) := by
  unfold Emitter.operand
  cases Operand.ofNat? n <;> rfl

theorem size_eq_of_reaches {m inner : Emitter} {s : Scope} (h : (m.inside 1).Reaches inner s) :
    m.here + 1 + inner.lines.size = s.address := by
  rw [← h.here_eq]
  exact congrArg (· + inner.lines.size) h.start_eq.symm

theorem Reaches.join {m m' inner : Emitter} {s s' : Scope} (h : m.Reaches m' s)
    (hinner : (m'.inside 1).Reaches inner s') (jump : Opcode) (n : Nat) (p : Position) :
    m.Reaches (m'.join jump n p inner) s' := by
  have hsize := size_eq_of_reaches hinner
  have hdeclared : inner.declared = s'.declared := congrArg Scope.declared hinner.scope_eq
  unfold Emitter.join
  rw [operand_with_lines]
  have hoperand : (inner.operand n p).2.declared = inner.declared := by
    unfold Emitter.operand
    split <;> rfl
  refine ⟨h.start_eq, ?_⟩
  obtain ⟨address, declared⟩ := s'
  dsimp only at hsize hdeclared
  subst hsize hdeclared
  simp [scope, here, Emitter.add, Emitter.append, hoperand]
  omega

theorem Reaches.jumpOver {m m' : Emitter} {s : Scope} (h : m.Reaches m' s) (jump : Opcode)
    (p : Position) {part : Emitter → Emitter} (f : Scope → Scope)
    (hpart : ∀ m : Emitter, m.Reaches (part m) (f m.scope)) :
    m.Reaches (m'.jumpOver jump p part) (f (s.skip 1)) := by
  rw [jumpOver_eq_join]
  exact h.join (h.inside f (hpart _)) jump _ p

theorem scope_jumpOver (m : Emitter) (jump : Opcode) (p : Position) {part : Emitter → Emitter}
    (f : Scope → Scope) (hpart : ∀ m : Emitter, m.Reaches (part m) (f m.scope)) :
    (m.jumpOver jump p part).scope = f (m.scope.skip 1) :=
  ((Reaches.refl m).jumpOver jump p f hpart).scope_eq

theorem scope_join (m : Emitter) {inner : Emitter} {s : Scope}
    (hinner : (m.inside 1).Reaches inner s) (jump : Opcode) (n : Nat) (p : Position) :
    (m.join jump n p inner).scope = s :=
  ((Reaches.refl m).join hinner jump n p).scope_eq

end Emitter

open Emitter

section Equations

variable (m : Emitter) (p : Position)

theorem Expr.emit_logical (op : LogicalOp) (left right : Expr) :
    (Expr.logical op left right p).emit m =
      (((match op with
        | .and => ((left.emit m).emitBare .dup p).emitBare .not p
        | .or => (left.emit m).emitBare .dup p).jumpOver .ifTrueGoto p fun m =>
          right.emit (m.emit .pop 1 p)).emitBare .not p).emitBare .not p := by
  cases op <;> rfl

theorem Stmt.emit_ifElse (condition : Expr) (body other : Stmt) :
    (Stmt.ifElse condition body other p).emit m =
      let test := (condition.emit m).emitBare .not p
      let inner := body.emit (test.inside 1)
      (test.join .ifTrueGoto (test.here + 1 + inner.lines.size + 1) p inner).jumpOver .goto p
        other.emit := by
  rw [Stmt.emit]
  rfl

theorem Stmt.emit_whileDo (condition : Expr) (body : Stmt) :
    (Stmt.whileDo condition body p).emit m =
      let test := (condition.emit m).emitBare .not p
      let inner := body.emit (test.inside 1)
      let back := inner.operand m.here p
      (test.join .ifTrueGoto (test.here + 1 + inner.lines.size + 1) p back.2).add .goto
        back.1 p := by
  rw [Stmt.emit]
  unfold Emitter.aside Emitter.join Emitter.operand
  dsimp only
  cases Operand.ofNat? m.here <;> rfl

end Equations

section Reaches

def Expr.Steady (e : Expr) : Prop := ∀ m : Emitter, m.Reaches (e.emit m) (e.behind m.scope)

def Stmt.Steady (t : Stmt) : Prop := ∀ m : Emitter, m.Reaches (t.emit m) (t.behind m.scope)

theorem emitArguments_reaches {es : List Expr} (h : ∀ e ∈ es, e.Steady) (m : Emitter) :
    m.Reaches (emitArguments m es) (argumentsBehind m.scope es) := by
  induction es generalizing m with
  | nil => exact Reaches.refl m
  | cons e es ih =>
    obtain ⟨he, hes⟩ := List.forall_mem_cons.1 h
    rw [emitArguments, argumentsBehind]
    exact (he m).next (argumentsBehind · es) (ih hes _)

theorem emitCall_reaches {callee : Expr} {arguments : List Expr} (hc : callee.Steady)
    (h : ∀ e ∈ arguments, e.Steady) (m : Emitter) :
    m.Reaches ((emitArguments m arguments).emitCallee callee fun m => callee.emit m)
      ((argumentsBehind m.scope arguments).behindCallee callee fun s => callee.behind s) := by
  refine (emitArguments_reaches h m).next
    (Scope.behindCallee · callee fun s => callee.behind s) ?_
  unfold emitCallee Scope.behindCallee
  rw [callee?_eq]
  cases (emitArguments m arguments).scope.callee? callee with
  | some named => exact (Reaches.refl _).emitString _ _ _
  | none => exact hc _

theorem emitStatements_reaches {ts : List Stmt} (h : ∀ t ∈ ts, t.Steady) (m : Emitter) :
    m.Reaches (emitStatements m ts) (statementsBehind m.scope ts) := by
  induction ts generalizing m with
  | nil => exact Reaches.refl m
  | cons t ts ih =>
    obtain ⟨ht, hts⟩ := List.forall_mem_cons.1 h
    rw [emitStatements, statementsBehind]
    exact (ht m).next (statementsBehind · ts) (ih hts _)

theorem emit_steady : Tree.Cases Expr.Steady Stmt.Steady where
  literal value p m := by
    rw [Expr.emit, Expr.behind]
    exact (Reaches.refl m).emitLiteral value p
  name text p m := by
    rw [Expr.emit, Expr.behind]
    exact (Reaches.refl m).emitString .pushGlobal text p
  group inner p h m := by
    rw [Expr.emit, Expr.behind]
    exact h m
  unary op operand p h m := by
    rw [Expr.emit, Expr.behind]
    exact (h m).emitBare op.opcode p _
  binary op left right p hleft hright m := by
    rw [Expr.emit, Expr.behind]
    exact ((hleft m).next (right.behind ·) (hright _)).emitBare op.opcode p _
  logical op left right p hleft hright m := by
    rw [Expr.emit_logical, Expr.behind]
    have hdup := (hleft m).emitBare .dup p []
    have hrest (m' : Emitter) :
        m'.Reaches (right.emit (m'.emit .pop 1 p)) (right.behind (m'.scope.skip 1)) :=
      ((Reaches.refl m').emit .pop 1 p).next (right.behind ·) (hright _)
    cases op with
    | and =>
      have hnot := hdup.emitBare .not p []
      have hjump := hnot.jumpOver .ifTrueGoto p (fun s => right.behind (s.skip 1)) hrest
      exact (hjump.emitBare .not p []).emitBare .not p []
    | or =>
      have hjump := hdup.jumpOver .ifTrueGoto p (fun s => right.behind (s.skip 1)) hrest
      exact (hjump.emitBare .not p []).emitBare .not p []
  function body p h m := by
    rw [Expr.emit, Expr.behind]
    have hbody (m' : Emitter) :
        m'.Reaches ((body.emit m').emitBare .ret p) ((body.behind m'.scope).skip 1) :=
      (h m').emitBare .ret p []
    have hjump := (Reaches.refl m).jumpOver .goto p (fun s => (body.behind s).skip 1) hbody
    exact hjump.emit .pushFunction _ p
  call callee arguments p hc h m := by
    rw [Expr.emit, Expr.behind]
    exact (emitCall_reaches hc h m).emit .callReturn _ p
  index callee arguments p _ _ m := by
    rw [Expr.emit, Expr.behind]
    exact ((Reaches.refl m).report p _ _).emitBare .pushNull p []
  member parent child p _ _ m := by
    rw [Expr.emit, Expr.behind]
    split
    · exact (Reaches.refl m).emitString .pushGlobal _ p
    · exact ((Reaches.refl m).report p _ _).emitBare .pushNull p []
  empty p m := by
    rw [Stmt.emit, Stmt.behind]
    exact Reaches.refl m
  declare name value p h m := by
    rw [Stmt.emit, Stmt.behind]
    have hname := (Reaches.refl m).declare name
    exact (hname.next (value.behind ·) (h _)).emitString .defineGlobal name p
  block body p h m := by
    rw [Stmt.emit, Stmt.behind]
    exact emitStatements_reaches h m
  returnNull p m := by
    rw [Stmt.emit, Stmt.behind]
    exact (Reaches.refl m).emit .ret 0 p
  returnValue value p h m := by
    rw [Stmt.emit, Stmt.behind]
    exact (h m).emit .ret 1 p
  ifThen condition body p hcondition hbody m := by
    rw [Stmt.emit, Stmt.behind]
    have htest := (hcondition m).emitBare .not p []
    exact htest.jumpOver .ifTrueGoto p (body.behind ·) hbody
  ifElse condition body other p hcondition hbody hother m := by
    rw [Stmt.emit_ifElse, Stmt.behind]
    have htest := (hcondition m).emitBare .not p []
    have hinner := htest.inside (body.behind ·) (hbody _)
    exact (htest.join hinner .ifTrueGoto _ p).jumpOver .goto p (other.behind ·) hother
  whileDo condition body p hcondition hbody m := by
    rw [Stmt.emit_whileDo, Stmt.behind]
    have htest := (hcondition m).emitBare .not p []
    have hinner := (htest.inside (body.behind ·) (hbody _)).operand m.here p
    exact (htest.join hinner .ifTrueGoto _ p).add .goto _ p []
  discard callee arguments q p hc h m := by
    rw [Stmt.emit, Stmt.behind]
    exact (emitCall_reaches hc h m).emit .callDiscard _ q
  value value p hcall h m := by
    rw [Stmt.emit, Stmt.behind]
    · exact (h m).emit .pop 1 p
    all_goals exact hcall
  assign text q value p h m := by
    rw [Stmt.emit, Stmt.behind]
    exact (h m).emitString .setGlobal text p
  assignOther target value p hname _ _ m := by
    rw [Stmt.emit, Stmt.behind]
    · exact (Reaches.refl m).report _ _ _
    all_goals exact hname

end Reaches

end StackScript
