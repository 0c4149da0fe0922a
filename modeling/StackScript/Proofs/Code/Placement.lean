import StackScript.Proofs.Code.Emission
import StackScript.Proofs.Tree.Constants

/-!
Emitting a part lays it out. Emitting only adds to what is there, so everything that
an emitter held at some time stands in the code that comes of it in the end. The
address of a part is read from the emitter in front of it.
-/

namespace StackScript

namespace Emitter

/-- What the emitter holds stands in the code, and it has nothing to report. -/
structure Placed (m : Emitter) (code : Code) : Prop where
  lines : ∀ (i : Nat) line, m.lines[i]? = some line →
    code.instructions[m.start + i]? = some line.command ∧
      code.origins[m.start + i]? = some line.origin
  strings : ∀ (i : Nat) s, m.strings[i]? = some s → code.strings[i]? = some s
  ints : ∀ (i : Nat) n, m.ints[i]? = some n → code.ints[i]? = some n
  numbers : ∀ (i : Nat) x, m.numbers[i]? = some x → code.numbers[i]? = some x
  quiet : m.faults = #[]

theorem placed_code {m : Emitter} (hstart : m.start = 0) (hquiet : m.faults = #[]) :
    m.Placed m.code where
  lines i line h := by
    rw [hstart, Nat.zero_add]
    simp [code, h]
  strings _ _ h := h
  ints _ _ h := h
  numbers _ _ h := h
  quiet := hquiet

theorem getElem?_push_of_some {α : Type} {xs : Array α} {i : Nat} {x y : α}
    (h : xs[i]? = some x) : (xs.push y)[i]? = some x := by
  have hi := (Array.getElem?_eq_some_iff.1 h).1
  rw [Array.getElem?_push, if_neg (Nat.ne_of_lt hi), h]

namespace Placed

variable {m : Emitter} {code : Code} {p : Position}

theorem add {opcode : Opcode} {operand : Operand} {ps : List Position}
    (h : (m.add opcode operand p ps).Placed code) :
    m.Placed code ∧ code.Holds m.scope.address opcode operand.val p ps := by
  constructor
  · exact { h with lines := fun i line hi => h.lines i line (getElem?_push_of_some hi) }
  · obtain ⟨hcommand, horigin⟩ := h.lines m.lines.size _ Array.getElem?_push_size
    exact ⟨operand, hcommand, rfl, horigin⟩

theorem operand {n : Nat} (h : (m.operand n p).2.Placed code) :
    m.Placed code ∧ (m.operand n p).1.val = n := by
  obtain ⟨operand, hoperand⟩ := operand_of_quiet h.quiet
  rw [operand_eq hoperand] at h ⊢
  exact ⟨h, hoperand⟩

theorem emitBare {opcode : Opcode} {ps : List Position}
    (h : (m.emitBare opcode p ps).Placed code) :
    m.Placed code ∧ code.Holds m.scope.address opcode 0 p ps := h.add

theorem emit {opcode : Opcode} {n : Nat} (h : (m.emit opcode n p).Placed code) :
    m.Placed code ∧ code.Holds m.scope.address opcode n p := by
  have hadd : ((m.operand n p).2.add opcode (m.operand n p).1 p []).Placed code := h
  obtain ⟨hplaced, hholds⟩ := add hadd
  obtain ⟨hplaced, hn⟩ := hplaced.operand
  rw [hn, ((Reaches.refl m).operand n p).scope_eq] at hholds
  exact ⟨hplaced, hholds⟩

theorem emitString {opcode : Opcode} {text : String}
    (h : (m.emitString opcode text p).Placed code) :
    m.Placed code ∧ code.HoldsText m.scope.address opcode text p := by
  obtain ⟨hplaced, hholds⟩ := emit h
  have hslot := hplaced.strings m.strings.size text Array.getElem?_push_size
  refine ⟨{ hplaced with strings := fun i s hi => ?_ }, _, hholds, hslot⟩
  exact hplaced.strings i s (getElem?_push_of_some hi)

theorem emitLiteral {value : Value} (hvalue : ∀ entry, value ≠ .function entry)
    (h : (m.emitLiteral value p).Placed code) :
    m.Placed code ∧ code.HoldsLiteral m.scope.address p value := by
  cases value with
  | null => exact emitBare h
  | bool b => cases b <;> exact add h
  | int n =>
    obtain ⟨hplaced, hholds⟩ := emit h
    have hslot := hplaced.ints m.ints.size n Array.getElem?_push_size
    refine ⟨{ hplaced with ints := fun i k hi => ?_ }, _, hholds, hslot⟩
    exact hplaced.ints i k (getElem?_push_of_some hi)
  | number x =>
    obtain ⟨hplaced, hholds⟩ := emit h
    have hslot := hplaced.numbers m.numbers.size x Array.getElem?_push_size
    refine ⟨{ hplaced with numbers := fun i y hi => ?_ }, _, hholds, hslot⟩
    exact hplaced.numbers i y (getElem?_push_of_some hi)
  | string text => exact emitString h
  | function entry => exact absurd rfl (hvalue entry)

theorem report {fault : Fault} {argument : String} : ¬(m.report p fault argument).Placed code := by
  intro h
  have hquiet := h.quiet
  simp [Emitter.report] at hquiet

theorem declare {name : String} (h : (m.declare name).Placed code) : m.Placed code := by
  unfold Emitter.declare at h
  split at h
  · exact h
  · exact { h with }

theorem append {lines : Array Line} (h : (m.append lines).Placed code) : m.Placed code := by
  refine { h with lines := fun i line hi => h.lines i line ?_ }
  have hlt := (Array.getElem?_eq_some_iff.1 hi).1
  rw [← hi]
  exact Array.getElem?_append_left hlt

/-- Behind a jump stands the part that was emitted aside. -/
theorem join {jump : Opcode} {n : Nat} {inner : Emitter} (h : (m.join jump n p inner).Placed code)
    (hstart : inner.start = m.here + 1) :
    inner.Placed code ∧ code.Holds m.scope.address jump n p ∧
      ((m.inside 1).Placed code → m.Placed code) := by
  let base : Emitter := { inner with start := m.start, lines := m.lines }
  have hjoin : (((base.operand n p).2.add jump (base.operand n p).1 p []).append
      inner.lines).Placed code := h
  have hlines : (base.operand n p).2.lines = m.lines := by
    unfold Emitter.operand
    split <;> rfl
  obtain ⟨hplaced, hholds⟩ := add (append hjoin)
  obtain ⟨hplaced, hn⟩ := hplaced.operand
  rw [hn, ((Reaches.refl base).operand n p).scope_eq] at hholds
  refine ⟨{ hplaced with lines := fun i line hi => ?_ }, hholds, fun hinside => ?_⟩
  · have hat := hjoin.lines (m.lines.size + 1 + i) line ?_
    · have haddress : m.start + (m.lines.size + 1 + i) = inner.start + i := by
        rw [hstart, here]
        omega
      have hstart' : (base.operand n p).2.start = m.start :=
        ((Reaches.refl base).operand n p).start_eq
      change code.instructions[(base.operand n p).2.start + (m.lines.size + 1 + i)]? = _ ∧
        code.origins[(base.operand n p).2.start + (m.lines.size + 1 + i)]? = _ at hat
      rwa [hstart', haddress] at hat
    · change ((base.operand n p).2.lines.push _ ++ inner.lines)[m.lines.size + 1 + i]? = _
      rw [hlines, Array.getElem?_append_right (by simp), Array.size_push, Nat.add_sub_cancel_left]
      exact hi
  · exact { hinside with lines := hplaced.lines }

/-- A part with a jump over it, seen from the part. -/
theorem jumpOver {jump : Opcode} {part : Emitter → Emitter} {s : Scope}
    (h : (m.jumpOver jump p part).Placed code)
    (hpart : (m.inside 1).Reaches (part (m.inside 1)) s) :
    (part (m.inside 1)).Placed code ∧ code.Holds m.scope.address jump s.address p ∧
      ((m.inside 1).Placed code → m.Placed code) := by
  rw [jumpOver_eq_join, size_eq_of_reaches hpart] at h
  exact h.join hpart.start_eq

end Placed

end Emitter

open Emitter

section Placed

/-- Where what an expression emits stands, the expression is laid out. -/
def Expr.Lays (e : Expr) : Prop :=
  ∀ (m : Emitter) code, e.AddressFree → (e.emit m).Placed code →
    m.Placed code ∧ e.Laid code m.scope

def Stmt.Lays (t : Stmt) : Prop :=
  ∀ (m : Emitter) code, t.AddressFree → (t.emit m).Placed code →
    m.Placed code ∧ t.Laid code m.scope

theorem Expr.scope_emit (e : Expr) (m : Emitter) : (e.emit m).scope = e.behind m.scope :=
  (emit_steady.expr e m).scope_eq

theorem Stmt.scope_emit (t : Stmt) (m : Emitter) : (t.emit m).scope = t.behind m.scope :=
  (emit_steady.stmt t m).scope_eq

theorem emitArguments_lays {es : List Expr} (h : ∀ e ∈ es, e.Lays) (m : Emitter) {code : Code}
    (hfree : AllAddressFree es) (hplaced : (emitArguments m es).Placed code) :
    m.Placed code ∧ ArgumentsLaid code m.scope es := by
  induction es generalizing m with
  | nil => exact ⟨hplaced, trivial⟩
  | cons e es ih =>
    obtain ⟨he, hes⟩ := List.forall_mem_cons.1 h
    obtain ⟨hplaced, hlaid⟩ := ih hes (e.emit m) hfree.2 hplaced
    rw [e.scope_emit] at hlaid
    obtain ⟨hplaced, hlaid'⟩ := he m code hfree.1 hplaced
    exact ⟨hplaced, hlaid', hlaid⟩

theorem emitStatements_lays {ts : List Stmt} (h : ∀ t ∈ ts, t.Lays) (m : Emitter) {code : Code}
    (hfree : EachAddressFree ts) (hplaced : (emitStatements m ts).Placed code) :
    m.Placed code ∧ StatementsLaid code m.scope ts := by
  induction ts generalizing m with
  | nil => exact ⟨hplaced, trivial⟩
  | cons t ts ih =>
    obtain ⟨ht, hts⟩ := List.forall_mem_cons.1 h
    obtain ⟨hplaced, hlaid⟩ := ih hts (t.emit m) hfree.2 hplaced
    rw [t.scope_emit] at hlaid
    obtain ⟨hplaced, hlaid'⟩ := ht m code hfree.1 hplaced
    exact ⟨hplaced, hlaid', hlaid⟩

theorem emitCall_lays {callee : Expr} {arguments : List Expr} (hc : callee.Lays)
    (h : ∀ e ∈ arguments, e.Lays) (m : Emitter) {code : Code} (hfree : callee.AddressFree)
    (hfrees : AllAddressFree arguments)
    (hplaced : ((emitArguments m arguments).emitCallee callee fun m => callee.emit m).Placed
      code) :
    m.Placed code ∧ ArgumentsLaid code m.scope arguments ∧
      code.HoldsCallee (argumentsBehind m.scope arguments) callee
        (callee.Laid code (argumentsBehind m.scope arguments)) := by
  have hscope : (emitArguments m arguments).scope = argumentsBehind m.scope arguments :=
    (emitArguments_reaches (fun e _ => emit_steady.expr e) m).scope_eq
  unfold emitCallee at hplaced
  rw [callee?_eq, hscope] at hplaced
  unfold Code.HoldsCallee
  cases hcallee : (argumentsBehind m.scope arguments).callee? callee with
  | some named =>
    rw [hcallee] at hplaced
    obtain ⟨hplaced, hholds⟩ := hplaced.emitString
    rw [hscope] at hholds
    obtain ⟨hplaced, hlaid⟩ := emitArguments_lays h m hfrees hplaced
    exact ⟨hplaced, hlaid, hholds⟩
  | none =>
    rw [hcallee] at hplaced
    obtain ⟨hplaced, hlaid'⟩ := hc _ code hfree hplaced
    rw [hscope] at hlaid'
    obtain ⟨hplaced, hlaid⟩ := emitArguments_lays h m hfrees hplaced
    exact ⟨hplaced, hlaid, hlaid'⟩

theorem emitCall_scope (m : Emitter) (callee : Expr) (arguments : List Expr) :
    ((emitArguments m arguments).emitCallee callee fun m => callee.emit m).scope =
      (argumentsBehind m.scope arguments).behindCallee callee fun s => callee.behind s :=
  (emitCall_reaches (emit_steady.expr callee) (fun e _ => emit_steady.expr e) m).scope_eq

theorem emit_lays : Tree.Cases Expr.Lays Stmt.Lays where
  -- What was emitted last is taken off first, so each case goes through its parts backwards.
  literal value p m code hfree hplaced := by
    rw [Expr.emit] at hplaced
    exact hplaced.emitLiteral hfree
  name text p m code _ hplaced := by
    rw [Expr.emit] at hplaced
    exact hplaced.emitString
  group inner p h m code hfree hplaced := by
    rw [Expr.emit] at hplaced
    exact h m code hfree hplaced
  unary op operand p h m code hfree hplaced := by
    rw [Expr.emit] at hplaced
    obtain ⟨hplaced, hholds⟩ := hplaced.emitBare
    rw [operand.scope_emit] at hholds
    obtain ⟨hplaced, hlaid⟩ := h m code hfree hplaced
    exact ⟨hplaced, hlaid, hholds⟩
  binary op left right p hleft hright m code hfree hplaced := by
    rw [Expr.emit] at hplaced
    obtain ⟨hplaced, hholds⟩ := hplaced.emitBare
    rw [right.scope_emit, left.scope_emit] at hholds
    obtain ⟨hplaced, hlaid'⟩ := hright _ code hfree.2 hplaced
    rw [left.scope_emit] at hlaid'
    obtain ⟨hplaced, hlaid⟩ := hleft m code hfree.1 hplaced
    exact ⟨hplaced, hlaid, hlaid', hholds⟩
  logical op left right p hleft hright m code hfree hplaced := by
    rw [Expr.emit_logical] at hplaced
    have hrest (m' : Emitter) :
        m'.Reaches (right.emit (m'.emit .pop 1 p)) (right.behind (m'.scope.skip 1)) :=
      ((Reaches.refl m').emit .pop 1 p).next (right.behind ·) (emit_steady.expr right _)
    obtain ⟨hplaced, hlast⟩ := hplaced.emitBare
    obtain ⟨hplaced, hnot⟩ := hplaced.emitBare
    rw [scope_emitBare] at hlast
    rw [scope_jumpOver _ _ _ (fun s => right.behind (s.skip 1)) hrest] at hlast hnot
    obtain ⟨hpart, htest, hback⟩ := hplaced.jumpOver (hrest _)
    obtain ⟨hpart, hlaid'⟩ := hright _ code hfree.2 hpart
    obtain ⟨hpart, hpop⟩ := hpart.emit
    cases op with
    | and =>
      obtain ⟨hplaced, hfirst⟩ := (hback hpart).emitBare
      obtain ⟨hplaced, hdup⟩ := hplaced.emitBare
      obtain ⟨hplaced, hlaid⟩ := hleft m code hfree.1 hplaced
      simp only [scope_inside, Emitter.scope_emit, scope_emitBare, left.scope_emit,
        Scope.skip_skip] at hlast hnot htest hlaid' hpop hfirst hdup
      exact ⟨hplaced, hlaid, ⟨hdup, hfirst, htest, hpop⟩, hlaid', hnot, hlast⟩
    | or =>
      obtain ⟨hplaced, hdup⟩ := (hback hpart).emitBare
      obtain ⟨hplaced, hlaid⟩ := hleft m code hfree.1 hplaced
      simp only [scope_inside, Emitter.scope_emit, scope_emitBare, left.scope_emit,
        Scope.skip_skip] at hlast hnot htest hlaid' hpop hdup
      exact ⟨hplaced, hlaid, ⟨hdup, htest, hpop⟩, hlaid', hnot, hlast⟩
  function body p h m code hfree hplaced := by
    rw [Expr.emit] at hplaced
    have hrest (m' : Emitter) :
        m'.Reaches ((body.emit m').emitBare .ret p) ((body.behind m'.scope).skip 1) :=
      (emit_steady.stmt body m').emitBare .ret p []
    obtain ⟨hplaced, hpush⟩ := hplaced.emit
    rw [scope_jumpOver _ _ _ (fun s => (body.behind s).skip 1) hrest] at hpush
    obtain ⟨hpart, hjump, hback⟩ := hplaced.jumpOver (hrest _)
    obtain ⟨hpart, hret⟩ := hpart.emitBare
    rw [body.scope_emit] at hret
    obtain ⟨hpart, hlaid⟩ := h _ code hfree hpart
    exact ⟨hback hpart, hjump, hlaid, hret, hpush⟩
  call callee arguments p hc h m code hfree hplaced := by
    rw [Expr.emit] at hplaced
    obtain ⟨hplaced, hholds⟩ := hplaced.emit
    rw [emitCall_scope] at hholds
    obtain ⟨hplaced, harguments, hcallee⟩ := emitCall_lays hc h m hfree.1 hfree.2 hplaced
    exact ⟨hplaced, harguments, hcallee, hholds⟩
  index callee arguments p _ _ m code _ hplaced := by
    rw [Expr.emit] at hplaced
    exact absurd hplaced.emitBare.1 Placed.report
  member parent child p _ _ m code _ hplaced := by
    rw [Expr.emit] at hplaced
    unfold Expr.Laid
    cases hpath : (Expr.member parent child p).dotted? with
    | some path =>
      simp only [hpath] at hplaced
      exact hplaced.emitString
    | none =>
      simp only [hpath] at hplaced
      exact absurd hplaced.emitBare.1 Placed.report
  empty p m code _ hplaced := by
    rw [Stmt.emit] at hplaced
    exact ⟨hplaced, trivial⟩
  declare name value p h m code hfree hplaced := by
    rw [Stmt.emit] at hplaced
    obtain ⟨hplaced, hholds⟩ := hplaced.emitString
    rw [value.scope_emit, scope_declare] at hholds
    obtain ⟨hplaced, hlaid⟩ := h _ code hfree hplaced
    rw [scope_declare] at hlaid
    exact ⟨hplaced.declare, hlaid, hholds⟩
  block body p h m code hfree hplaced := by
    rw [Stmt.emit] at hplaced
    exact emitStatements_lays h m hfree hplaced
  returnNull p m code _ hplaced := by
    rw [Stmt.emit] at hplaced
    exact hplaced.emit
  returnValue value p h m code hfree hplaced := by
    rw [Stmt.emit] at hplaced
    obtain ⟨hplaced, hholds⟩ := hplaced.emit
    rw [value.scope_emit] at hholds
    obtain ⟨hplaced, hlaid⟩ := h m code hfree hplaced
    exact ⟨hplaced, hlaid, hholds⟩
  ifThen condition body p hcondition hbody m code hfree hplaced := by
    rw [Stmt.emit] at hplaced
    obtain ⟨hpart, htest, hback⟩ := hplaced.jumpOver (emit_steady.stmt body _)
    obtain ⟨hpart, hlaid'⟩ := hbody _ code hfree.2 hpart
    obtain ⟨hplaced, hnot⟩ := (hback hpart).emitBare
    obtain ⟨hplaced, hlaid⟩ := hcondition m code hfree.1 hplaced
    simp only [scope_inside, scope_emitBare, condition.scope_emit, Scope.skip_skip]
      at htest hlaid' hnot
    exact ⟨hplaced, hlaid, ⟨hnot, htest⟩, hlaid'⟩
  ifElse condition body other p hcondition hbody hother m code hfree hplaced := by
    rw [Stmt.emit_ifElse] at hplaced
    have hbehind := emit_steady.stmt body (((condition.emit m).emitBare .not p).inside 1)
    obtain ⟨hpart, hjump, hback⟩ := hplaced.jumpOver (emit_steady.stmt other _)
    obtain ⟨hpart, hlaid''⟩ := hother _ code hfree.2.2 hpart
    obtain ⟨hpart, htest, hback⟩ := (hback hpart).join hbehind.start_eq
    obtain ⟨hpart, hlaid'⟩ := hbody _ code hfree.2.1 hpart
    obtain ⟨hplaced, hnot⟩ := (hback hpart).emitBare
    obtain ⟨hplaced, hlaid⟩ := hcondition m code hfree.1 hplaced
    simp only [scope_inside, scope_join _ hbehind, size_eq_of_reaches hbehind, scope_emitBare,
      condition.scope_emit, Scope.skip_skip] at hnot htest hlaid' hjump hlaid''
    exact ⟨hplaced, hlaid, ⟨hnot, htest⟩, hlaid', hjump, hlaid''⟩
  whileDo condition body p hcondition hbody m code hfree hplaced := by
    rw [Stmt.emit_whileDo] at hplaced
    have hbehind := (emit_steady.stmt body (((condition.emit m).emitBare .not p).inside 1)).operand
      m.here p
    obtain ⟨hplaced, hgoto⟩ := hplaced.add
    obtain ⟨hpart, htest, hback⟩ := hplaced.join hbehind.start_eq
    obtain ⟨hpart, hstart⟩ := hpart.operand
    obtain ⟨hpart, hlaid'⟩ := hbody _ code hfree.2 hpart
    obtain ⟨hplaced, hnot⟩ := (hback hpart).emitBare
    obtain ⟨hplaced, hlaid⟩ := hcondition m code hfree.1 hplaced
    have hsize := size_eq_of_reaches (emit_steady.stmt body
      (((condition.emit m).emitBare .not p).inside 1))
    simp only [hstart, hsize, scope_inside, scope_join _ hbehind, scope_emitBare,
      condition.scope_emit, Scope.skip_skip] at hnot htest hlaid' hgoto
    exact ⟨hplaced, hlaid, ⟨hnot, htest⟩, hlaid', hgoto⟩
  discard callee arguments q p hc h m code hfree hplaced := by
    rw [Stmt.emit] at hplaced
    obtain ⟨hplaced, hholds⟩ := hplaced.emit
    rw [emitCall_scope] at hholds
    obtain ⟨hplaced, harguments, hcallee⟩ := emitCall_lays hc h m hfree.1 hfree.2 hplaced
    exact ⟨hplaced, harguments, hcallee, hholds⟩
  value value p hcall h m code hfree hplaced := by
    rw [Stmt.emit] at hplaced
    · obtain ⟨hplaced, hholds⟩ := hplaced.emit
      rw [value.scope_emit] at hholds
      obtain ⟨hplaced, hlaid⟩ := h m code hfree hplaced
      rw [Stmt.Laid]
      · exact ⟨hplaced, hlaid, hholds⟩
      · exact hcall
    · exact hcall
  assign text q value p h m code hfree hplaced := by
    rw [Stmt.emit] at hplaced
    obtain ⟨hplaced, hholds⟩ := hplaced.emitString
    rw [value.scope_emit] at hholds
    obtain ⟨hplaced, hlaid⟩ := h m code hfree.2 hplaced
    exact ⟨hplaced, hlaid, hholds⟩
  assignOther target value p hname _ _ m code hfree hplaced := by
    rw [Stmt.emit] at hplaced
    · exact absurd hplaced Placed.report
    · exact hname

end Placed

/-- The code of a script that has nothing wrong with it holds the script from its first
instruction to its last. -/
theorem Script.compile_laid (script : Script) (hfree : EachAddressFree script.statements)
    (hclean : script.compile.faults = #[]) :
    script.root.Laid script.compile.code {} ∧
      script.compile.code.size = (script.root.behind {}).address := by
  have hreaches := emit_steady.stmt script.root {}
  have hplaced := placed_code (m := script.emit) hreaches.start_eq hclean
  obtain ⟨-, hlaid⟩ := emit_lays.stmt script.root {} _ hfree.root hplaced
  refine ⟨hlaid, ?_⟩
  have hsize := hreaches.here_eq
  rw [here, hreaches.start_eq, Nat.zero_add] at hsize
  exact Array.size_map.trans hsize

end StackScript
