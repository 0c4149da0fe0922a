import StackScript.Proofs.Code.Parts

/-!
Constants and the instructions that refer to them. A constant gets its slot when its
instruction is added, after all that the instruction needs, so over the code of a part the
slots of a pool are counted upwards from where the pool ended before. In the code of a whole
script they are counted from zero, and each of them is used once.
-/

namespace StackScript

/-- The operands of the instructions with these opcodes, in the order of the code. -/
def Code.operandsOf (code : Code) (opcodes : List Opcode) : List Nat :=
  (code.instructions.toList.filter fun c => opcodes.contains c.opcode).map (·.operand.val)

/-- The slots of a pool that the lines refer to, from first to last. -/
def slotsOf (pool : Pool) (lines : Array Line) : List Nat :=
  (lines.toList.filter fun line => line.command.opcode.reference = .constant pool).map
    (·.command.operand.val)

section Slots

variable (pool : Pool) (lines : Array Line) (line : Line)

@[simp] theorem slotsOf_append (lines' : Array Line) :
    slotsOf pool (lines ++ lines') = slotsOf pool lines ++ slotsOf pool lines' := by
  simp [slotsOf]

theorem slotsOf_push :
    slotsOf pool (lines.push line) = slotsOf pool lines ++
      if line.command.opcode.reference = .constant pool then [line.command.operand.val]
      else [] := by
  unfold slotsOf
  rw [Array.toList_push, List.filter_append, List.map_append]
  split <;> simp_all

/-- An instruction that refers to something else takes no slot. -/
theorem slotsOf_push_other {pool : Pool} {lines : Array Line} {line : Line}
    (h : line.command.opcode.reference ≠ .constant pool) :
    slotsOf pool (lines.push line) = slotsOf pool lines := by
  rw [slotsOf_push, if_neg h, List.append_nil]

end Slots

namespace Emitter

/-- The lines refer to the slots from `first` on to the end of the pool, in this order. -/
def Numbered (pool : Pool) (first : Nat) (m : Emitter) : Prop :=
  ∃ count, slotsOf pool m.lines = List.range' first count ∧ m.poolSize pool = first + count

namespace Numbered

variable {pool : Pool} {first : Nat} {m : Emitter}

/-- A part that is emitted aside starts at the end of the pool. -/
theorem inside (m : Emitter) : (m.inside 1).Numbered pool (m.poolSize pool) :=
  ⟨0, rfl, rfl⟩

theorem add {opcode : Opcode} (h : m.Numbered pool first) (operand : Operand) (p : Position)
    (ps : List Position) (hopcode : opcode.reference ≠ .constant pool) :
    (m.add opcode operand p ps).Numbered pool first := by
  obtain ⟨count, hslots, hsize⟩ := h
  exact ⟨count, (slotsOf_push_other hopcode).trans hslots, hsize⟩

theorem declare (h : m.Numbered pool first) (name : String) :
    (m.declare name).Numbered pool first := by
  rw [declare_eq]
  exact h

theorem constant {opcode : Opcode} {c : Constant} {operand : Operand}
    (h : m.Numbered pool first) (p : Position) (hopcode : opcode.reference = .constant c.pool)
    (hoperand : operand.val = m.poolSize c.pool) :
    ((m.hold c).add opcode operand p).Numbered pool first := by
  obtain ⟨count, hslots, hsize⟩ := h
  have hpool : ((m.hold c).add opcode operand p).poolSize pool =
      m.poolSize pool + if pool = c.pool then 1 else 0 := m.poolSize_hold c pool
  have hlines : ((m.hold c).add opcode operand p).lines =
      m.lines.push ⟨⟨opcode, operand⟩, ⟨p, []⟩⟩ := by
    rw [← m.lines_hold c]
    rfl
  unfold Numbered
  rw [hpool, hlines]
  by_cases hc : pool = c.pool
  · subst hc
    refine ⟨count + 1, ?_, by rw [if_pos rfl, hsize, Nat.add_assoc]⟩
    rw [slotsOf_push, if_pos hopcode, hslots, hoperand, hsize, List.range'_concat, Nat.one_mul]
  · have hother : opcode.reference ≠ .constant pool := by
      rw [hopcode]
      simpa using Ne.symm hc
    exact ⟨count, (slotsOf_push_other hother).trans hslots, by rw [if_neg hc, hsize, Nat.add_zero]⟩

theorem enclose {inner : Emitter} {jump : Opcode} (h : m.Numbered pool first) (target : Operand)
    (p : Position) (hjump : jump.reference = .address)
    (hinner : inner.Numbered pool (m.poolSize pool)) :
    (m.enclose ⟨⟨jump, target⟩, ⟨p, []⟩⟩ inner).Numbered pool first := by
  obtain ⟨count, hslots, hsize⟩ := h
  obtain ⟨count', hslots', hsize'⟩ := hinner
  refine ⟨count + count', ?_, ?_⟩
  · change slotsOf pool (m.lines.push _ ++ inner.lines) = _
    have hother : jump.reference ≠ .constant pool := by simp [hjump]
    rw [slotsOf_append, slotsOf_push_other hother, hslots, hslots', hsize, List.range'_append_1]
  · exact hsize'.trans (by rw [hsize, Nat.add_assoc])

end Numbered

/-- What one part adds goes on counting where the lines before it stopped. -/
theorem Part.numbered {part : Emitter → Emitter} (h : Part part) {pool : Pool} {first : Nat}
    {m : Emitter} (hm : m.Numbered pool first) (hquiet : (part m).faults = #[]) :
    (part m).Numbered pool first := by
  induction h generalizing m first with
  | nothing => exact hm
  | next _ h' ih ih' => exact ih' (ih hm (h'.quiet hquiet)) hquiet
  | line opcode operand p ps hopcode => exact hm.add operand p ps (by simp [hopcode])
  | counted opcode n p hopcode =>
    obtain ⟨operand, hoperand⟩ := emit_of_quiet hquiet
    have hother : opcode.reference ≠ .constant pool := by simp [hopcode]
    have hnumbered := hm.add operand p [] hother
    rwa [← emit_eq hoperand] at hnumbered
  | constant opcode c p hopcode =>
    obtain ⟨operand, hoperand⟩ := emit_of_quiet hquiet
    have hnumbered := hm.constant p hopcode hoperand
    rwa [← emit_eq hoperand] at hnumbered
  | report => exact hm
  | declare name => exact hm.declare name
  | behindJump jump extra p hjump _ ih =>
    obtain ⟨target, htarget⟩ := behindJump_of_quiet hquiet
    rw [behindJump_eq htarget] at hquiet ⊢
    exact hm.enclose target p hjump (ih (.inside m) hquiet)
  | overBody p _ ih =>
    obtain ⟨target, entry, htarget, hentry⟩ := overBody_of_quiet hquiet
    rw [overBody_eq htarget hentry] at hquiet ⊢
    exact (hm.enclose target p rfl (ih (.inside m) hquiet)).add entry p [] nofun
  | repeated p _ h' ih ih' =>
    obtain ⟨target, back, htarget, hback⟩ := repeated_of_quiet hquiet
    rw [repeated_eq htarget hback] at hquiet ⊢
    have htest := ih hm (h'.quiet (m := Emitter.inside _ 1) hquiet)
    exact (htest.enclose target p rfl (ih' (.inside _) hquiet)).add back p [] nofun
  | declared _ ih => exact ih _ hm hquiet

theorem operandsOf_code {opcodes : List Opcode} {pool : Pool}
    (h : ∀ op : Opcode, opcodes.contains op = decide (op.reference = .constant pool))
    (m : Emitter) : m.code.operandsOf opcodes = slotsOf pool m.lines := by
  unfold Code.operandsOf slotsOf code
  simp only [Array.toList_map, List.filter_map, List.map_map, Function.comp_def, h]

end Emitter

open Emitter

/-- In code for a statement, and so for a whole script, the instructions use the slots of
each pool once and in their order. -/
theorem Stmt.slots_in_order (t : Stmt) (hfree : t.AddressFree) (hquiet : (t.emit {}).faults = #[]) :
    let code := (t.emit {}).code
    code.operandsOf [.pushInt] = List.range code.ints.size ∧
      code.operandsOf [.pushNumber] = List.range code.numbers.size ∧
      code.operandsOf [.pushString, .pushGlobal, .defineGlobal, .setGlobal] =
        List.range code.strings.size := by
  have hslots (pool : Pool) : slotsOf pool (t.emit {}).lines =
      List.range ((t.emit {}).poolSize pool) := by
    have hempty : ({} : Emitter).Numbered pool 0 := ⟨0, rfl, by cases pool <;> rfl⟩
    obtain ⟨count, hcount, hsize⟩ := (emit_part.stmt t hfree).numbered hempty hquiet
    rw [hcount, hsize, Nat.zero_add, List.range_eq_range']
  refine ⟨?_, ?_, ?_⟩
  · exact (operandsOf_code (by intro op; cases op <;> rfl) _).trans (hslots .int)
  · exact (operandsOf_code (by intro op; cases op <;> rfl) _).trans (hslots .number)
  · exact (operandsOf_code (by intro op; cases op <;> rfl) _).trans (hslots .string)

/-- A name that is called or assigned to comes behind the constants of the values. -/
theorem slots_in_order_nested :
    let p : Position := default
    let answer : Expr := .function (.returnValue (.literal (.string "s") p) p) p
    let t : Stmt := .block [
      .declare "x" (.literal (.int 7) p) p,
      .whileDo (.name "x" p)
        (.assign (.name "x" p)
          (.call (.name "f" p) [.literal (.int 1) p, .literal (.number .infinity) p] p) p) p,
      .expression (.call (.member (.name "a" p) (.name "b" p) p) [answer, .name "x" p] p) p] p
    let code := (t.emit {}).code
    t.AddressFree ∧ (t.emit {}).faults = #[] ∧
      code.ints = #[7, 1] ∧ code.numbers = #[.infinity] ∧
      code.strings = #["x", "x", "f", "x", "s", "x", "a.b"] ∧
      code.operandsOf [.pushInt] = List.range code.ints.size ∧
      code.operandsOf [.pushNumber] = List.range code.numbers.size ∧
      code.operandsOf [.pushString, .pushGlobal, .defineGlobal, .setGlobal] =
        List.range code.strings.size := by
  intro p answer t code
  have hfree : t.AddressFree := by
    simp [t, answer, Stmt.AddressFree, EachAddressFree, Expr.AddressFree, AllAddressFree]
  have hquiet : (t.emit {}).faults = #[] := by decide +kernel
  have hints : code.ints = #[7, 1] := by decide +kernel
  have hnumbers : code.numbers = #[.infinity] := by decide +kernel
  have hstrings : code.strings = #["x", "x", "f", "x", "s", "x", "a.b"] := by decide +kernel
  exact ⟨hfree, hquiet, hints, hnumbers, hstrings, t.slots_in_order hfree hquiet⟩

end StackScript
