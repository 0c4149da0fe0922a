import Mathlib.Data.List.Forall2
import StackScript.Proofs.Code.Checks
import StackScript.Proofs.Code.Independence
import StackScript.Proofs.Code.Parts

/-!
Code does not depend on where it is emitted. A part that is emitted behind other code comes
to what it comes to on its own, with addresses moved by the number of instructions in front
and slots by the sizes of the pools, and what stands in front stays as it was. The code that
is emitted aside has its own instructions in front of it but shares the pools.
-/

namespace StackScript

/-- Addresses in the operand lie from `first` to `last`, and where a function starts
something follows. -/
def Command.Within (first last : Nat) (c : Command) : Prop :=
  match c.opcode with
  | .goto | .ifTrueGoto => first ≤ c.operand.val ∧ c.operand.val ≤ last
  | .pushFunction => first ≤ c.operand.val ∧ c.operand.val < last
  | _ => True

namespace Line

/-- The same instruction from the same place, with its operand moved on. -/
structure Moved (offset : Opcode → Nat) (line line' : Line) : Prop where
  opcode : line'.command.opcode = line.command.opcode
  operand : line'.command.operand.val = line.command.operand.val + offset line.command.opcode
  origin : line'.origin = line.origin

end Line

namespace Emitter

/-- How far an operand moves that stands behind what the emitter holds. -/
def offset (m : Emitter) (opcode : Opcode) : Nat :=
  match opcode.reference with
  | .nothing => 0
  | .address => m.here
  | .constant pool => m.poolSize pool

section Offset

variable {m : Emitter} {opcode : Opcode}

theorem offset_nothing (h : opcode.reference = .nothing) : m.offset opcode = 0 := by
  rw [offset, h]

theorem offset_address (h : opcode.reference = .address) : m.offset opcode = m.here := by
  rw [offset, h]

theorem offset_constant {pool : Pool} (h : opcode.reference = .constant pool) :
    m.offset opcode = m.poolSize pool := by
  rw [offset, h]

/-- An operand that fits further on fits here. -/
theorem exists_operand {operand' : Operand} {n distance : Nat}
    (h : operand'.val = distance + n) :
    ∃ operand : Operand, operand.val = n ∧ operand'.val = operand.val + distance :=
  ⟨⟨n, by omega⟩, rfl, by rw [h, Nat.add_comm]⟩

/-- An address moves by as much as the code in front of it is longer. -/
theorem exists_address (opcode : Opcode) {operand' : Operand} {n : Nat}
    (hopcode : opcode.reference = .address) (h : operand'.val = m.here + n) :
    ∃ operand : Operand, operand.val = n ∧ operand'.val = operand.val + m.offset opcode := by
  rw [offset_address hopcode]
  exact exists_operand h

end Offset

/-- All that `m` holds stands in `m'`, behind what `ground` holds and moved accordingly. -/
structure Carries (ground m m' : Emitter) : Prop where
  start : m'.start = ground.start + m.start
  lines : ∃ added, m'.lines = ground.lines ++ added ∧
    List.Forall₂ (Line.Moved ground.offset) m.lines.toList added.toList
  strings : m'.strings = ground.strings ++ m.strings
  ints : m'.ints = ground.ints ++ m.ints
  numbers : m'.numbers = ground.numbers ++ m.numbers
  declared : m'.declared = m.declared
  quiet : m.faults = #[]

namespace Carries

variable {ground m m' : Emitter}

theorem size_lines (h : ground.Carries m m') :
    m'.lines.size = ground.lines.size + m.lines.size := by
  obtain ⟨added, hlines, hmoved⟩ := h.lines
  have hsize : m.lines.size = added.size := hmoved.length_eq
  rw [hlines, Array.size_append, hsize]

theorem here_eq (h : ground.Carries m m') : m'.here = ground.here + m.here := by
  have hsize := h.size_lines
  have hstart := h.start
  unfold here
  omega

theorem poolSize_eq (h : ground.Carries m m') (pool : Pool) :
    m'.poolSize pool = ground.poolSize pool + m.poolSize pool := by
  cases pool <;> simp [poolSize, h.strings, h.ints, h.numbers]

/-- A part that is emitted aside stands on the same ground, at the same distance. -/
theorem inside (h : ground.Carries m m') :
    (ground.inside 0).Carries (m.inside 1) (m'.inside 1) where
  start := by
    have hhere := h.here_eq
    change m'.here + 1 = ground.here + 0 + (m.here + 1)
    omega
  lines := ⟨#[], rfl, .nil⟩
  strings := h.strings
  ints := h.ints
  numbers := h.numbers
  declared := h.declared
  quiet := h.quiet

theorem size_inside {inner inner' : Emitter} (h : (ground.inside 0).Carries inner inner') :
    inner'.lines.size = inner.lines.size :=
  h.size_lines.trans (Nat.zero_add _)

theorem add {opcode : Opcode} {operand operand' : Operand} (h : ground.Carries m m')
    (hoperand : operand'.val = operand.val + ground.offset opcode) (p : Position)
    (ps : List Position) :
    ground.Carries (m.add opcode operand p ps) (m'.add opcode operand' p ps) := by
  obtain ⟨added, hlines, hmoved⟩ := h.lines
  refine { h with lines := ⟨added.push ⟨⟨opcode, operand'⟩, ⟨p, ps⟩⟩, ?_, ?_⟩ }
  · change m'.lines.push _ = _
    rw [hlines, Array.append_push]
  · change List.Forall₂ _ (m.lines.push _).toList _
    rw [Array.toList_push, Array.toList_push]
    exact List.rel_append hmoved (.cons ⟨rfl, hoperand, rfl⟩ .nil)

theorem hold (h : ground.Carries m m') (c : Constant) : ground.Carries (m.hold c) (m'.hold c) := by
  cases c with
  | string s => exact { h with strings := by simp [Emitter.hold, h.strings] }
  | int i => exact { h with ints := by simp [Emitter.hold, h.ints] }
  | number x => exact { h with numbers := by simp [Emitter.hold, h.numbers] }

theorem declare (h : ground.Carries m m') (name : String) :
    ground.Carries (m.declare name) (m'.declare name) := by
  have hdeclared : (m'.declare name).declared = (m.declare name).declared := by
    unfold Emitter.declare
    rw [h.declared]
    split
    · exact h.declared
    · rfl
  rw [declare_eq m, declare_eq m']
  exact { h with declared := hdeclared }

theorem enclose {inner inner' : Emitter} {jump : Opcode} {target target' : Operand}
    (h : ground.Carries m m') (hinner : (ground.inside 0).Carries inner inner')
    (htarget : target'.val = target.val + ground.offset jump) (p : Position) :
    ground.Carries (m.enclose ⟨⟨jump, target⟩, ⟨p, []⟩⟩ inner)
      (m'.enclose ⟨⟨jump, target'⟩, ⟨p, []⟩⟩ inner') := by
  obtain ⟨added, hlines, hmoved⟩ := (h.add htarget p []).lines
  obtain ⟨added', hlines', hmoved'⟩ := hinner.lines
  refine { hinner with start := h.start, lines := ⟨added ++ added', ?_, ?_⟩ }
  · change (m'.add jump target' p []).lines ++ inner'.lines = _
    have hinside : inner'.lines = added' := hlines'.trans Array.empty_append
    rw [hlines, hinside, Array.append_assoc]
  · change List.Forall₂ _ ((m.add jump target p []).lines ++ inner.lines).toList _
    rw [Array.toList_append, Array.toList_append]
    exact List.rel_append hmoved hmoved'

theorem behindJump {jump : Opcode} {extra : Nat} {p : Position} {part : Emitter → Emitter}
    (h : ground.Carries m m') (hjump : jump.reference = .address)
    (hpart : (ground.inside 0).Carries (part (m.inside 1)) (part (m'.inside 1)))
    {target' : Operand}
    (htarget' : target'.val = m'.here + 1 + (part (m'.inside 1)).lines.size + extra) :
    ground.Carries (m.behindJump jump extra p part) (m'.behindJump jump extra p part) := by
  have hdistance : target'.val =
      ground.here + (m.here + 1 + (part (m.inside 1)).lines.size + extra) := by
    rw [htarget', h.here_eq, hpart.size_inside]
    omega
  obtain ⟨target, htarget, hmoved⟩ := exists_address jump hjump hdistance
  rw [behindJump_eq htarget, behindJump_eq htarget']
  exact h.enclose hpart hmoved p

theorem overBody {p : Position} {body : Emitter → Emitter} (h : ground.Carries m m')
    (hbody : (ground.inside 0).Carries (body (m.inside 1)) (body (m'.inside 1)))
    {target' entry' : Operand}
    (htarget' : target'.val = m'.here + 1 + (body (m'.inside 1)).lines.size)
    (hentry' : entry'.val = m'.here + 1) :
    ground.Carries (m.overBody p body) (m'.overBody p body) := by
  have hover : ground.Carries (m.behindJump .goto 0 p body) (m'.behindJump .goto 0 p body) :=
    h.behindJump rfl hbody htarget'
  have hdistance : entry'.val = ground.here + (m.here + 1) := by
    rw [hentry', h.here_eq, Nat.add_assoc]
  obtain ⟨entry, hentry, hmoved⟩ := exists_address .pushFunction rfl hdistance
  rw [Emitter.overBody, Emitter.overBody, emit_eq hentry, emit_eq hentry']
  exact hover.add hmoved p []

theorem repeated {p : Position} {test body : Emitter → Emitter} (h : ground.Carries m m')
    (htest : ground.Carries (test m) (test m'))
    (hbody : (ground.inside 0).Carries (body ((test m).inside 1)) (body ((test m').inside 1)))
    {target' back' : Operand}
    (htarget' : target'.val =
      (test m').here + 1 + (body ((test m').inside 1)).lines.size + 1)
    (hback' : back'.val = m'.here) :
    ground.Carries (m.repeated p test body) (m'.repeated p test body) := by
  have hdistance : target'.val =
      ground.here + ((test m).here + 1 + (body ((test m).inside 1)).lines.size + 1) := by
    rw [htarget', htest.here_eq, hbody.size_inside]
    omega
  obtain ⟨target, htarget, hmoved⟩ := exists_address .ifTrueGoto rfl hdistance
  obtain ⟨back, hback, hmoved'⟩ := exists_address .goto rfl (hback'.trans h.here_eq)
  rw [repeated_eq htarget hback, repeated_eq htarget' hback']
  exact (htest.enclose hbody hmoved p).add hmoved' p []

end Carries

/-- A part comes to the same behind a ground as without it. -/
theorem Part.carried {part : Emitter → Emitter} (h : Part part) {ground m m' : Emitter}
    (hm : ground.Carries m m') (hquiet : (part m').faults = #[]) :
    ground.Carries (part m) (part m') := by
  induction h generalizing ground m m' with
  | nothing => exact hm
  | next _ h' ih ih' => exact ih' (ih hm (h'.quiet hquiet)) hquiet
  | line opcode operand p ps hopcode =>
    exact hm.add (by rw [offset_nothing hopcode, Nat.add_zero]) p ps
  | counted opcode n p hopcode =>
    obtain ⟨operand, hoperand⟩ := emit_of_quiet hquiet
    have hmoved : operand.val = operand.val + ground.offset opcode := by
      rw [offset_nothing hopcode, Nat.add_zero]
    have hadd := hm.add hmoved p []
    rwa [← emit_eq hoperand, ← emit_eq hoperand] at hadd
  | constant opcode c p hopcode =>
    obtain ⟨slot', hslot'⟩ := emit_of_quiet hquiet
    obtain ⟨slot, hslot, hmoved⟩ := exists_operand (hslot'.trans (hm.poolSize_eq c.pool))
    rw [← offset_constant hopcode] at hmoved
    have hadd := (hm.hold c).add hmoved p []
    rwa [← emit_eq hslot, ← emit_eq hslot'] at hadd
  | report => simp [Emitter.report] at hquiet
  | declare name => exact hm.declare name
  | behindJump jump extra p hjump _ ih =>
    obtain ⟨target, htarget⟩ := behindJump_of_quiet hquiet
    rw [behindJump_eq htarget] at hquiet
    exact hm.behindJump hjump (ih hm.inside hquiet) htarget
  | overBody p _ ih =>
    obtain ⟨target, entry, htarget, hentry⟩ := overBody_of_quiet hquiet
    rw [overBody_eq htarget hentry] at hquiet
    exact hm.overBody (ih hm.inside hquiet) htarget hentry
  | repeated p _ h' ih ih' =>
    obtain ⟨target, back, htarget, hback⟩ := repeated_of_quiet hquiet
    rw [repeated_eq htarget hback] at hquiet
    have htest := ih hm (h'.quiet (m := Emitter.inside _ 1) hquiet)
    exact hm.repeated htest (ih' htest.inside hquiet) htarget hback
  | declared _ ih =>
    dsimp only at hquiet ⊢
    rw [hm.declared] at hquiet ⊢
    exact ih m.declared hm hquiet

/-- A part that tells nothing tells nothing on its own either. -/
theorem Part.carried_afresh {part : Emitter → Emitter} (h : Part part) (hpart : Oblivious part)
    {m : Emitter} (hquiet : (part m).faults = m.faults) :
    m.Carries (part { declared := m.declared }) (part m) := by
  -- what was told before is left out first
  let silent : Emitter := { m with faults := #[] }
  have hm : silent.behind m.faults = m := by simp [silent, behind]
  have hbehind : part m = (part silent).behind m.faults := by
    have := hpart m.faults silent
    rwa [hm] at this
  have hfresh : silent.Carries { declared := m.declared } silent :=
    ⟨rfl, ⟨#[], by simp, .nil⟩, by simp, by simp, by simp, rfl, rfl⟩
  have hsilent : (part silent).faults = #[] := by
    rw [hbehind] at hquiet
    simpa [behind] using hquiet
  have hcarried := h.carried hfresh hsilent
  rw [hbehind]
  exact { hcarried with }

/-- Code that passes its check holds no address beyond its end. -/
theorem fits_of_passes {m : Emitter} (hstart : m.start = 0) {height height' : Nat}
    (h : m.code.Passes m.here 0 height m.here height') :
    ∀ line ∈ m.lines.toList, line.command.Fits m.code m.here := by
  obtain ⟨cs, hsize, hat, hfits, -⟩ := h
  intro line hline
  obtain ⟨i, hi, rfl⟩ := List.getElem_of_mem hline
  have hlt : i < cs.length := by
    rw [here, hstart, Nat.zero_add, Nat.zero_add] at hsize
    rw [← hsize]
    exact hi
  have hcommand : cs[i]? = some m.lines.toList[i].command := by
    rw [← hat i hlt, Nat.zero_add]
    simp [code, Array.getElem?_eq_getElem (Array.length_toList ▸ hi)]
  exact hfits _ (List.mem_of_getElem? hcommand)

theorem within_of_moved {m : Emitter} {line line' : Line} {code : Code} {bound : Nat}
    (h : line.Moved m.offset line') (hfits : line.command.Fits code bound) :
    line'.command.Within m.here (m.here + bound) := by
  obtain ⟨hopcode, hoperand, -⟩ := h
  unfold Command.Fits at hfits
  unfold Command.Within
  rw [hopcode]
  cases hop : line.command.opcode with
  | goto | ifTrueGoto | pushFunction =>
    rw [hop] at hfits hoperand
    rw [offset_address rfl] at hoperand
    dsimp only at hfits ⊢
    omega
  | _ => trivial

theorem forall_within_of_moved {m : Emitter} {lines lines' : List Line} {code : Code}
    {bound : Nat} (h : List.Forall₂ (Line.Moved m.offset) lines lines')
    (hfits : ∀ line ∈ lines, line.command.Fits code bound) :
    ∀ line ∈ lines', line.command.Within m.here (m.here + bound) := by
  induction h with
  | nil => simp
  | cons hmoved _ ih =>
    obtain ⟨hline, hrest⟩ := List.forall_mem_cons.1 hfits
    exact List.forall_mem_cons.2 ⟨within_of_moved hmoved hline, ih hrest⟩

theorem Carries.within {m alone m' : Emitter} (h : m.Carries alone m')
    (hfits : ∀ line ∈ alone.lines.toList, line.command.Fits alone.code alone.here) :
    ∀ line ∈ m'.lines.toList.drop m.lines.size, line.command.Within m.here m'.here := by
  obtain ⟨added, hlines, hmoved⟩ := h.lines
  rw [h.here_eq, hlines, Array.toList_append, List.drop_left' Array.length_toList]
  exact forall_within_of_moved hmoved hfits

/-- The part comes to what it comes to on its own, behind what `m` holds, and its addresses
stay within what is added. -/
def Appends (m : Emitter) (part : Emitter → Emitter) : Prop :=
  m.Carries (part { declared := m.declared }) (part m) ∧
    ∀ line ∈ (part m).lines.toList.drop m.lines.size, line.command.Within m.here (part m).here

end Emitter

open Emitter

section Alone

variable {names : List String}

/-- Code that is emitted on its own refers to nothing beyond its end. -/
theorem Expr.emit_fits {e : Expr} (hfree : e.AddressFree) :
    let alone := e.emit { declared := names }
    alone.faults = #[] → ∀ line ∈ alone.lines.toList, line.command.Fits alone.code alone.here := by
  intro alone hquiet
  have hreaches := emit_steady.expr e { declared := names }
  obtain ⟨-, hlaid⟩ := emit_lays.expr e _ _ hfree (placed_code hreaches.start_eq hquiet)
  have hpasses := (laid_checks _).expr e _ _ 0 hlaid (Nat.le_refl _)
  rw [← hreaches.here_eq] at hpasses
  exact fits_of_passes hreaches.start_eq hpasses

theorem Stmt.emit_fits {t : Stmt} (hfree : t.AddressFree) :
    let alone := t.emit { declared := names }
    alone.faults = #[] → ∀ line ∈ alone.lines.toList, line.command.Fits alone.code alone.here := by
  intro alone hquiet
  have hreaches := emit_steady.stmt t { declared := names }
  obtain ⟨-, hlaid⟩ := emit_lays.stmt t _ _ hfree (placed_code hreaches.start_eq hquiet)
  have hpasses := (laid_checks _).stmt t _ _ 0 hlaid (Nat.le_refl _)
  rw [← hreaches.here_eq] at hpasses
  exact fits_of_passes hreaches.start_eq hpasses

end Alone

/-- Where it tells nothing, an expression or a statement only adds to what is there, and it
adds what it comes to on its own, moved behind the rest. -/
theorem emit_relocatable (m : Emitter) :
    (∀ e : Expr, e.AddressFree → (e.emit m).faults = m.faults →
      m.Appends fun m => e.emit m) ∧
    ∀ t : Stmt, t.AddressFree → (t.emit m).faults = m.faults → m.Appends fun m => t.emit m := by
  refine ⟨fun e hfree hquiet => ?_, fun t hfree hquiet => ?_⟩
  · have hcarried := (emit_part.expr e hfree).carried_afresh (emit_oblivious.expr e) hquiet
    exact ⟨hcarried, hcarried.within (Expr.emit_fits hfree hcarried.quiet)⟩
  · have hcarried := (emit_part.stmt t hfree).carried_afresh (emit_oblivious.stmt t) hquiet
    exact ⟨hcarried, hcarried.within (Stmt.emit_fits hfree hcarried.quiet)⟩

/-- Behind the two instructions of `var x = 7;` a loop and a conjunction with a function. -/
theorem emit_relocatable_behind_declaration :
    let p : Position := default
    let m := (Stmt.declare "x" (.literal (.int 7) p) p).emit {}
    let e : Expr := .logical .and (.name "x" p)
      (.function (.returnValue (.literal (.int 1) p) p) p) p
    let t : Stmt := .whileDo (.name "x" p)
      (.ifElse (.name "y" p) (.empty p) (.expression (.call (.name "x" p) [] p) p) p) p
    let operands (m : Emitter) := m.lines.toList.map fun line => line.command.operand.val
    (e.AddressFree ∧ (e.emit m).faults = m.faults ∧ (m.Appends fun m => e.emit m) ∧
        operands (e.emit { declared := ["x"] }) = [0, 0, 0, 10, 1, 9, 0, 1, 0, 6, 0, 0] ∧
        operands (e.emit m) = [0, 0] ++ [1, 0, 0, 12, 1, 11, 1, 1, 0, 8, 0, 0]) ∧
      t.AddressFree ∧ (t.emit m).faults = m.faults ∧ (m.Appends fun m => t.emit m) ∧
        operands (t.emit { declared := ["x"] }) = [0, 0, 10, 1, 0, 7, 9, 2, 0, 0] ∧
        operands (t.emit m) = [0, 0] ++ [1, 0, 12, 2, 0, 9, 11, 3, 0, 2] := by
  intro p m e t operands
  have hexpr : e.AddressFree := by simp [e, Expr.AddressFree, Stmt.AddressFree]
  have hstmt : t.AddressFree := by simp [t, Expr.AddressFree, Stmt.AddressFree, AllAddressFree]
  have hquiet : (e.emit m).faults = m.faults := by decide +kernel
  have hquiet' : (t.emit m).faults = m.faults := by decide +kernel
  obtain ⟨hexprs, hstmts⟩ := emit_relocatable m
  refine ⟨⟨hexpr, hquiet, hexprs e hexpr hquiet, ?_, ?_⟩, hstmt, hquiet',
    hstmts t hstmt hquiet', ?_, ?_⟩
  all_goals decide +kernel

end StackScript
