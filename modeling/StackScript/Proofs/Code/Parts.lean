import StackScript.Code.Check
import StackScript.Proofs.Code.Emission
import StackScript.Proofs.Tree.Constants

/-!
What code is put together from. A part of it is a line, a constant with the line that
refers to it, one part behind another, or a part that was emitted aside and stands behind a
jump. All that is emitted for an expression or a statement is such a part, so that what
holds of every part is proved along the way in which parts are put together.
-/

namespace StackScript

/-- What the operand of an operation refers to. -/
inductive Reference where
  | nothing
  | address
  | constant (pool : Pool)
  deriving DecidableEq

def Opcode.reference : Opcode → Reference
  | .goto | .ifTrueGoto | .pushFunction => .address
  | .pushInt => .constant .int
  | .pushNumber => .constant .number
  | .pushString | .pushGlobal | .defineGlobal | .setGlobal => .constant .string
  | _ => .nothing

theorem UnaryOp.reference_opcode (op : UnaryOp) : op.opcode.reference = .nothing := by
  cases op <;> rfl

theorem BinaryOp.reference_opcode (op : BinaryOp) : op.opcode.reference = .nothing := by
  cases op <;> rfl

inductive Constant where
  | string (s : String)
  | int (i : Int32)
  | number (x : Single)

/-- The pool that the constant goes into. -/
def Constant.pool : Constant → Pool
  | string _ => .string
  | int _ => .int
  | number _ => .number

namespace Emitter

def poolSize (m : Emitter) : Pool → Nat
  | .string => m.strings.size
  | .int => m.ints.size
  | .number => m.numbers.size

def hold (m : Emitter) : Constant → Emitter
  | .string s => { m with strings := m.strings.push s }
  | .int i => { m with ints := m.ints.push i }
  | .number x => { m with numbers := m.numbers.push x }

theorem poolSize_hold (m : Emitter) (c : Constant) (pool : Pool) :
    (m.hold c).poolSize pool = m.poolSize pool + if pool = c.pool then 1 else 0 := by
  cases c <;> cases pool <;> simp [hold, poolSize, Constant.pool]

theorem lines_hold (m : Emitter) (c : Constant) : (m.hold c).lines = m.lines := by
  cases c <;> rfl

theorem faults_hold (m : Emitter) (c : Constant) : (m.hold c).faults = m.faults := by
  cases c <;> rfl

/-- An instruction about a constant, which gets a slot of its own. -/
def emitConstant (m : Emitter) (opcode : Opcode) (c : Constant) (p : Position) : Emitter :=
  (m.hold c).emit opcode (m.poolSize c.pool) p

/-- A part behind a jump, which leads `extra` instructions further than over the part. -/
def behindJump (jump : Opcode) (extra : Nat) (p : Position) (part : Emitter → Emitter)
    (m : Emitter) : Emitter :=
  let inner := part (m.inside 1)
  m.join jump (m.here + 1 + inner.lines.size + extra) p inner

/-- A function, with a jump over its body. -/
def overBody (p : Position) (body : Emitter → Emitter) (m : Emitter) : Emitter :=
  (m.behindJump .goto 0 p body).emit .pushFunction (m.here + 1) p

/-- A part behind a test, with a jump over it and one back. -/
def repeated (p : Position) (test body : Emitter → Emitter) (m : Emitter) : Emitter :=
  let inner := body ((test m).inside 1)
  let back := inner.operand m.here p
  ((test m).join .ifTrueGoto ((test m).here + 1 + inner.lines.size + 1) p back.2).add .goto
    back.1 p

/-- The ways to put code together. Which part it is may depend on the names declared. -/
inductive Part : (Emitter → Emitter) → Prop
  | nothing : Part fun m => m
  | next {first second : Emitter → Emitter} (h : Part first) (h' : Part second) :
      Part fun m => second (first m)
  | line (opcode : Opcode) (operand : Operand) (p : Position) (ps : List Position)
      (h : opcode.reference = .nothing) : Part fun m => m.add opcode operand p ps
  | counted (opcode : Opcode) (n : Nat) (p : Position) (h : opcode.reference = .nothing) :
      Part fun m => m.emit opcode n p
  | constant (opcode : Opcode) (c : Constant) (p : Position)
      (h : opcode.reference = .constant c.pool) : Part fun m => m.emitConstant opcode c p
  | report (p : Position) (fault : Fault) (argument : String) :
      Part fun m => m.report p fault argument
  | declare (name : String) : Part fun m => m.declare name
  | behindJump (jump : Opcode) {part : Emitter → Emitter} (extra : Nat) (p : Position)
      (hjump : jump.reference = .address) (h : Part part) :
      Part (behindJump jump extra p part)
  | overBody {body : Emitter → Emitter} (p : Position) (h : Part body) :
      Part (overBody p body)
  | repeated {test body : Emitter → Emitter} (p : Position) (h : Part test) (h' : Part body) :
      Part (repeated p test body)
  | declared {part : List String → Emitter → Emitter} (h : ∀ names, Part (part names)) :
      Part fun m => part m.declared m

theorem Part.congr {part part' : Emitter → Emitter} (h : Part part')
    (heq : ∀ m, part m = part' m) : Part part := funext heq ▸ h

/-- An instruction whose operand is always in range. -/
theorem Part.bare (opcode : Opcode) (p : Position) (ps : List Position)
    (h : opcode.reference = .nothing) : Part fun m => m.emitBare opcode p ps :=
  .line opcode .zero p ps h

theorem Part.jumpOver (jump : Opcode) {part : Emitter → Emitter} (p : Position)
    (hjump : jump.reference = .address) (h : Part part) : Part fun m => m.jumpOver jump p part :=
  .behindJump jump 0 p hjump h

theorem Part.text (opcode : Opcode) (s : String) (p : Position)
    (h : opcode.reference = .constant .string) : Part fun m => m.emitString opcode s p :=
  .constant opcode (.string s) p h

theorem Part.literal {value : Value} (p : Position) (h : ∀ entry, value ≠ .function entry) :
    Part fun m => m.emitLiteral value p := by
  cases value with
  | null => exact .bare .pushNull p [] rfl
  | bool b => exact .line .pushBool _ p [] rfl
  | int i => exact .constant .pushInt (.int i) p rfl
  | number x => exact .constant .pushNumber (.number x) p rfl
  | string s => exact .text .pushString s p rfl
  | function entry => exact absurd rfl (h entry)

theorem declare_eq (m : Emitter) (name : String) :
    m.declare name = { m with declared := (m.declare name).declared } := by
  unfold Emitter.declare
  split <;> rfl

/-- A part behind a line. -/
def enclose (m : Emitter) (line : Line) (inner : Emitter) : Emitter :=
  { inner with start := m.start, lines := m.lines.push line ++ inner.lines }

section InRange

variable {m inner : Emitter} {opcode jump : Opcode} {n extra : Nat} {p : Position}
  {part test body : Emitter → Emitter}

theorem emit_eq {operand : Operand} (h : operand.val = n) :
    m.emit opcode n p = m.add opcode operand p := by
  rw [Emitter.emit, operand_eq h]

theorem join_eq {target : Operand} (h : target.val = n) :
    m.join jump n p inner = m.enclose ⟨⟨jump, target⟩, ⟨p, []⟩⟩ inner := by
  rw [join, operand_eq h]
  rfl

theorem behindJump_eq {target : Operand}
    (h : target.val = m.here + 1 + (part (m.inside 1)).lines.size + extra) :
    m.behindJump jump extra p part = m.enclose ⟨⟨jump, target⟩, ⟨p, []⟩⟩ (part (m.inside 1)) :=
  join_eq h

theorem overBody_eq {target entry : Operand}
    (htarget : target.val = m.here + 1 + (body (m.inside 1)).lines.size)
    (hentry : entry.val = m.here + 1) :
    m.overBody p body =
      (m.enclose ⟨⟨.goto, target⟩, ⟨p, []⟩⟩ (body (m.inside 1))).add .pushFunction entry p := by
  rw [overBody, emit_eq hentry, behindJump_eq htarget]

theorem repeated_eq {target back : Operand}
    (htarget : target.val = (test m).here + 1 + (body ((test m).inside 1)).lines.size + 1)
    (hback : back.val = m.here) :
    m.repeated p test body =
      ((test m).enclose ⟨⟨.ifTrueGoto, target⟩, ⟨p, []⟩⟩ (body ((test m).inside 1))).add .goto
        back p := by
  rw [repeated, operand_eq hback]
  exact congrArg (·.add .goto back p) (join_eq htarget)

/-- Where nothing is told every operand was in range. -/
theorem emit_of_quiet (h : (m.emit opcode n p).faults = #[]) :
    ∃ operand : Operand, operand.val = n := operand_of_quiet (m := m) (n := n) (p := p) h

theorem behindJump_of_quiet (h : (m.behindJump jump extra p part).faults = #[]) :
    ∃ target : Operand, target.val = m.here + 1 + (part (m.inside 1)).lines.size + extra :=
  operand_of_quiet h

theorem overBody_of_quiet (h : (m.overBody p body).faults = #[]) :
    ∃ target entry : Operand,
      target.val = m.here + 1 + (body (m.inside 1)).lines.size ∧ entry.val = m.here + 1 := by
  obtain ⟨entry, hentry⟩ := emit_of_quiet h
  rw [overBody, emit_eq hentry] at h
  have hover : (m.behindJump .goto 0 p body).faults = #[] := h
  obtain ⟨target, htarget⟩ := behindJump_of_quiet hover
  exact ⟨target, entry, htarget, hentry⟩

theorem repeated_of_quiet (h : (m.repeated p test body).faults = #[]) :
    ∃ target back : Operand,
      target.val = (test m).here + 1 + (body ((test m).inside 1)).lines.size + 1 ∧
        back.val = m.here := by
  let inner := body ((test m).inside 1)
  have hjoin : ((test m).join .ifTrueGoto ((test m).here + 1 + inner.lines.size + 1) p
      (inner.operand m.here p).2).faults = #[] := h
  obtain ⟨target, htarget⟩ := operand_of_quiet hjoin
  rw [join_eq htarget] at hjoin
  obtain ⟨back, hback⟩ := operand_of_quiet hjoin
  exact ⟨target, back, htarget, hback⟩

end InRange

/-- A part after which nothing is told found nothing told. -/
theorem Part.quiet {part : Emitter → Emitter} (h : Part part) {m : Emitter}
    (hquiet : (part m).faults = #[]) : m.faults = #[] := by
  induction h generalizing m with
  | nothing => exact hquiet
  | next _ _ ih ih' => exact ih (ih' hquiet)
  | line => exact hquiet
  | counted =>
    obtain ⟨operand, hoperand⟩ := emit_of_quiet hquiet
    exact (congrArg Emitter.faults (emit_eq hoperand)).symm.trans hquiet
  | constant opcode c =>
    obtain ⟨operand, hoperand⟩ := emit_of_quiet hquiet
    have hheld := (congrArg Emitter.faults (emit_eq hoperand)).symm.trans hquiet
    exact (m.faults_hold c).symm.trans hheld
  | report => simp [Emitter.report] at hquiet
  | declare name => exact (congrArg Emitter.faults (m.declare_eq name)).symm.trans hquiet
  | behindJump jump extra p _ _ ih =>
    obtain ⟨target, htarget⟩ := behindJump_of_quiet hquiet
    rw [behindJump_eq htarget] at hquiet
    exact ih (m := m.inside 1) hquiet
  | overBody p _ ih =>
    obtain ⟨target, entry, htarget, hentry⟩ := overBody_of_quiet hquiet
    rw [overBody_eq htarget hentry] at hquiet
    exact ih (m := m.inside 1) hquiet
  | repeated p _ _ ih ih' =>
    obtain ⟨target, back, htarget, hback⟩ := repeated_of_quiet hquiet
    rw [repeated_eq htarget hback] at hquiet
    exact ih (ih' (m := Emitter.inside _ 1) hquiet)
  | declared _ ih => exact ih _ hquiet

end Emitter

open Emitter

section Parts

def Expr.IsPart (e : Expr) : Prop := e.AddressFree → Part fun m => e.emit m

def Stmt.IsPart (t : Stmt) : Prop := t.AddressFree → Part fun m => t.emit m

theorem emitArguments_part {es : List Expr} (h : ∀ e ∈ es, e.IsPart) (hfree : AllAddressFree es) :
    Part fun m => emitArguments m es := by
  induction es with
  | nil => exact .nothing
  | cons e es ih =>
    obtain ⟨he, hes⟩ := List.forall_mem_cons.1 h
    exact (he hfree.1).next (ih hes hfree.2)

theorem emitStatements_part {ts : List Stmt} (h : ∀ t ∈ ts, t.IsPart)
    (hfree : EachAddressFree ts) : Part fun m => emitStatements m ts := by
  induction ts with
  | nil => exact .nothing
  | cons t ts ih =>
    obtain ⟨ht, hts⟩ := List.forall_mem_cons.1 h
    exact (ht hfree.1).next (ih hts hfree.2)

theorem emitCallee_part {callee : Expr} (hc : Part fun m => callee.emit m) :
    Part fun m => m.emitCallee callee fun m => callee.emit m := by
  -- what is called by name depends on the names declared, and on nothing else
  have hpart (names : List String) : Part fun m => ((Scope.mk 0 names).callee? callee).elim
      (callee.emit m) fun named => m.emitString named.1 named.2 callee.position := by
    cases hcallee : (Scope.mk 0 names).callee? callee with
    | some named =>
      obtain ⟨opcode, text⟩ := named
      obtain rfl | rfl := Scope.callee?_opcode hcallee
      · exact .text _ text _ rfl
      · exact .text _ text _ rfl
    | none => exact hc
  refine (Part.declared hpart).congr fun m => ?_
  have hcallee : m.callee? callee = (Scope.mk 0 m.declared).callee? callee := by
    cases callee <;> rfl
  rw [emitCallee, hcallee]
  cases (Scope.mk 0 m.declared).callee? callee <;> rfl

theorem emitCall_part {callee : Expr} {arguments : List Expr} (hc : callee.IsPart)
    (h : ∀ e ∈ arguments, e.IsPart) (hfree : callee.AddressFree)
    (hfrees : AllAddressFree arguments) :
    Part fun m => (emitArguments m arguments).emitCallee callee fun m => callee.emit m :=
  (emitArguments_part h hfrees).next (emitCallee_part (hc hfree))

/-- All code is put together from parts. -/
theorem emit_part : Tree.Cases Expr.IsPart Stmt.IsPart where
  literal value p hfree := (Part.literal p hfree).congr fun m => by rw [Expr.emit]
  name text p _ := (Part.text .pushGlobal text p rfl).congr fun m => by rw [Expr.emit]
  group inner p h hfree := (h hfree).congr fun m => by rw [Expr.emit]
  unary op operand p h hfree := by
    have hop := (h hfree).next (.bare op.opcode p [operand.position] op.reference_opcode)
    exact hop.congr fun m => by rw [Expr.emit]
  binary op left right p hleft hright hfree := by
    have hoperands := (hleft hfree.1).next (hright hfree.2)
    have hop := hoperands.next
      (.bare op.opcode p [left.position, right.position] op.reference_opcode)
    exact hop.congr fun m => by rw [Expr.emit]
  logical op left right p hleft hright hfree := by
    have hdup := (hleft hfree.1).next (.bare .dup p [] rfl)
    have hnot : Part fun m => m.emitBare .not p := .bare .not p [] rfl
    have hrest := (Part.counted .pop 1 p rfl).next (hright hfree.2)
    cases op with
    | and =>
      have hjump := (hdup.next hnot).next (.jumpOver .ifTrueGoto p rfl hrest)
      exact ((hjump.next hnot).next hnot).congr fun m => by rw [Expr.emit_logical]
    | or =>
      have hjump := hdup.next (.jumpOver .ifTrueGoto p rfl hrest)
      exact ((hjump.next hnot).next hnot).congr fun m => by rw [Expr.emit_logical]
  function body p h hfree := by
    have hbody := Part.overBody p ((h hfree).next (.bare .ret p [] rfl))
    refine hbody.congr fun m => ?_
    rw [Expr.emit]
    rfl
  call callee arguments p hc h hfree := by
    have hcall := emitCall_part hc h hfree.1 hfree.2
    have hcall' := hcall.next (.counted .callReturn arguments.length p rfl)
    exact hcall'.congr fun m => by rw [Expr.emit]
  index callee arguments p _ _ _ := by
    have hreport := Part.report p .unsupportedExpression "Array access"
    exact (hreport.next (.bare .pushNull p [] rfl)).congr fun m => by rw [Expr.emit]
  member parent child p _ _ _ := by
    cases hpath : (Expr.member parent child p).dotted? with
    | some path =>
      exact (Part.text .pushGlobal path p rfl).congr fun m => by rw [Expr.emit, hpath]
    | none =>
      have hreport := Part.report p .unsupportedExpression "Member access"
      exact (hreport.next (.bare .pushNull p [] rfl)).congr fun m => by rw [Expr.emit, hpath]
  empty p _ := Part.nothing.congr fun m => by rw [Stmt.emit]
  declare name value p h hfree := by
    have hvalue := (Part.declare name).next (h hfree)
    exact (hvalue.next (.text .defineGlobal name p rfl)).congr fun m => by rw [Stmt.emit]
  block body p h hfree := (emitStatements_part h hfree).congr fun m => by rw [Stmt.emit]
  returnNull p _ := (Part.counted .ret 0 p rfl).congr fun m => by rw [Stmt.emit]
  returnValue value p h hfree :=
    ((h hfree).next (.counted .ret 1 p rfl)).congr fun m => by rw [Stmt.emit]
  ifThen condition body p hcondition hbody hfree := by
    have htest := (hcondition hfree.1).next (.bare .not p [] rfl)
    have hjump := htest.next (.jumpOver .ifTrueGoto p rfl (hbody hfree.2))
    exact hjump.congr fun m => by rw [Stmt.emit]
  ifElse condition body other p hcondition hbody hother hfree := by
    have htest := (hcondition hfree.1).next (.bare .not p [] rfl)
    have hjump := htest.next (.behindJump .ifTrueGoto 1 p rfl (hbody hfree.2.1))
    refine (hjump.next (.jumpOver .goto p rfl (hother hfree.2.2))).congr fun m => ?_
    rw [Stmt.emit_ifElse]
    rfl
  whileDo condition body p hcondition hbody hfree := by
    have htest := (hcondition hfree.1).next (.bare .not p [] rfl)
    refine (Part.repeated p htest (hbody hfree.2)).congr fun m => ?_
    rw [Stmt.emit_whileDo]
    rfl
  discard callee arguments q p hc h hfree := by
    have hcall := emitCall_part hc h hfree.1 hfree.2
    have hcall' := hcall.next (.counted .callDiscard arguments.length q rfl)
    exact hcall'.congr fun m => by rw [Stmt.emit]
  value value p hcall h hfree := by
    refine ((h hfree).next (.counted .pop 1 p rfl)).congr fun m => ?_
    rw [Stmt.emit]
    exact hcall
  assign text q value p h hfree :=
    ((h hfree.2).next (.text .setGlobal text p rfl)).congr fun m => by rw [Stmt.emit]
  assignOther target value p hname _ _ hfree := by
    have hreport := Part.report target.position .invalidAssignmentTarget target.text
    refine hreport.congr fun m => ?_
    rw [Stmt.emit]
    exact hname

end Parts

end StackScript
