import StackScript.Proofs.Code.Heights
import StackScript.Proofs.Machine.Bounds

/-!
What a run tells. An instruction goes on, ends the run with nothing to tell, or fails with
one error at its own place, behind which an operator tells the operands that it has
rejected. A run tells what its last step tells: nothing exactly if it has come to the end
of the code or has left the script outside of every call, and otherwise one error with two
notes, with one or with none.
-/

namespace StackScript

variable {σ : Type}

namespace Machine

/-- The next step ends the run with nothing to tell: there is no instruction left, or it
leaves the script outside of every call. The value that it leaves with has to be there. -/
def IsDone (s : Setting σ) (m : Machine σ) : Prop :=
  s.code.size ≤ m.pc ∨
    ∃ n : Operand, nextCommand? s m = some ⟨.ret, n⟩ ∧ m.frames = #[] ∧
      (n.val = 1 → m.stack ≠ #[])

/-- The next instruction is a binary operator that rejects the two values on top for what
they are, and not because it cannot divide by zero. -/
def RejectsPair (s : Setting σ) (m : Machine σ) (a b : Value) : Prop :=
  ∃ (op : BinaryOp) (n : Operand) (below : Array Value) (fault : OperandFault),
    nextCommand? s m = some ⟨op.opcode, n⟩ ∧ m.stack = (below.push a).push b ∧
      op.apply a b = .error fault ∧ fault ≠ .divisionByZero

/-- The next instruction is a unary operator that rejects the value on top. -/
def RejectsOne (s : Setting σ) (m : Machine σ) (a : Value) : Prop :=
  ∃ (op : UnaryOp) (n : Operand) (below : Array Value) (fault : OperandFault),
    nextCommand? s m = some ⟨op.opcode, n⟩ ∧ m.stack = below.push a ∧
      op.apply a = .error fault

/-- The notes behind the error of the next instruction: one for each operand that it
rejects, the left one first, and none with any other error. -/
structure NotesOf (s : Setting σ) (m : Machine σ) (notes : Array Diagnostic) : Prop where
  size_le : notes.size ≤ 2
  pair_iff : ∀ left right, notes = #[left, right] ↔
    ∃ a b, m.RejectsPair s a b ∧ left = a.noteAt (s.code.operandPositionAt m.pc 0) ∧
      right = b.noteAt (s.code.operandPositionAt m.pc 1)
  one_iff : ∀ note, notes = #[note] ↔
    ∃ a, m.RejectsOne s a ∧ note = a.noteAt (s.code.operandPositionAt m.pc 0)

section Step

variable {s : Setting σ} {m m' : Machine σ} {c : Command} {a b : Value}
  {report : Array Diagnostic}

theorem step_of_nextCommand? (h : nextCommand? s m = some c) :
    m.step s = execute s m.started c := by
  rcases step_trichotomy s m with ⟨hnone, -⟩ | ⟨hnone, -⟩ | ⟨c', hsome, -, hstep⟩
  · rw [hnone] at h
    cases h
  · rw [hnone] at h
    cases h
  · rw [hsome] at h
    cases h
    exact hstep

theorem IsDone.step_eq (h : m.IsDone s) : ∃ m', m.step s = .finished m' := by
  rcases h with hpc | ⟨n, hnext, hframes, hvalue⟩
  · exact ⟨m, by rw [step, Array.getElem?_eq_none hpc]⟩
  · have hleave (m' : Machine σ) (value : Option Value) (h : m'.frames = #[]) :
        m'.leave value = .finished m' := by
      rw [leave, h]
      rfl
    rw [step_of_nextCommand? hnext]
    simp only [execute]
    by_cases hone : n.val = 1
    · have hpos : 0 < m.started.stack.size := Array.size_pos_iff.2 (hvalue hone)
      obtain ⟨below, v, hstack⟩ := Array.exists_push_of_size_pos hpos
      rw [if_pos hone, withTop_push _ hstack]
      exact ⟨_, hleave _ _ hframes⟩
    · rw [if_neg hone]
      exact ⟨_, hleave _ _ hframes⟩

theorem RejectsPair.step_eq (h : m.RejectsPair s a b) : ∃ m' fault arguments,
    m.step s = .failed m' (#[.error (s.code.positionAt m.pc) fault arguments] ++
      #[a.noteAt (s.code.operandPositionAt m.pc 0),
        b.noteAt (s.code.operandPositionAt m.pc 1)]) := by
  obtain ⟨op, n, below, fault, hnext, hstack, happly, hfault⟩ := h
  have hbinary : execute s m.started ⟨op.opcode, n⟩ = binary s m.started op := by
    cases op <;> rfl
  have hstarted : m.started.stack = (below.push a).push b := hstack
  rw [step_of_nextCommand? hnext, hbinary, binary, withTop_push _ hstarted, withTop_push _ rfl,
    happly]
  cases fault with
  | divisionByZero => exact absurd rfl hfault
  | onNull | invalidOperands => exact ⟨_, _, _, rfl⟩

theorem RejectsOne.step_eq (h : m.RejectsOne s a) : ∃ m' fault arguments,
    m.step s = .failed m' (#[.error (s.code.positionAt m.pc) fault arguments] ++
      #[a.noteAt (s.code.operandPositionAt m.pc 0)]) := by
  obtain ⟨op, n, below, fault, hnext, hstack, happly⟩ := h
  have hunary : execute s m.started ⟨op.opcode, n⟩ = unary s m.started op := by
    cases op <;> rfl
  have hstarted : m.started.stack = below.push a := hstack
  rw [step_of_nextCommand? hnext, hunary, unary, withTop_push _ hstarted, happly]
  exact ⟨_, _, _, rfl⟩

/-- A step that fails has an instruction in front of it, and tells one error and the operands
that the instruction has rejected. -/
theorem failed_cases (h : m.step s = .failed m' report) :
    (∃ c, s.code.instructions[m.pc]? = some c) ∧ ∃ fault arguments notes,
      report = #[.error (s.code.positionAt m.pc) fault arguments] ++ notes ∧
      ((∃ a b, m.RejectsPair s a b ∧ notes = #[a.noteAt (s.code.operandPositionAt m.pc 0),
          b.noteAt (s.code.operandPositionAt m.pc 1)]) ∨
        (∃ a, m.RejectsOne s a ∧ notes = #[a.noteAt (s.code.operandPositionAt m.pc 0)]) ∨
        notes = #[]) := by
  cases hc : s.code.instructions[m.pc]? with
  | none =>
    rw [step, hc] at h
    cases h
  | some c =>
    refine ⟨⟨c, rfl⟩, ?_⟩
    by_cases hlimits : m.WithinLimits s
    · have hnext : nextCommand? s m = some c := by simp [nextCommand?, hc, hlimits]
      have htells := (execute_outcome s m.started c).tells
      rw [← step_of_nextCommand? hnext, h] at htells
      obtain ⟨opcode, n⟩ := c
      cases htells with
      | failed _ fault argument => exact ⟨fault, [argument], #[], rfl, .inr (.inr rfl)⟩
      | @one op a below fault _ hopcode hstack happly =>
        obtain rfl : opcode = op.opcode := hopcode
        exact ⟨fault.unaryFault, [op.symbol], _, rfl,
          .inr (.inl ⟨a, ⟨op, n, below, fault, hnext, hstack, happly⟩, rfl⟩)⟩
      | @pair op a b below fault _ hopcode hstack happly =>
        obtain rfl : opcode = op.opcode := hopcode
        cases fault with
        | divisionByZero => exact ⟨.divisionByZero, [op.symbol], #[], rfl, .inr (.inr rfl)⟩
        | onNull | invalidOperands =>
          exact ⟨_, [op.symbol], _, rfl,
            .inl ⟨a, b, ⟨op, n, below, _, hnext, hstack, happly, by simp⟩, rfl⟩⟩
    · obtain ⟨fault, argument, -, hstep⟩ := step_of_limit hlimits hc
      rw [h] at hstep
      cases hstep
      exact ⟨fault, [argument], #[], rfl, .inr (.inr rfl)⟩

/-- So the notes of a step that fails are those of its instruction. -/
theorem notesOf_failed (h : m.step s = .failed m' report) : ∃ fault arguments notes,
    report = #[.error (s.code.positionAt m.pc) fault arguments] ++ notes ∧
      m.NotesOf s notes := by
  obtain ⟨-, fault, arguments, notes, rfl, hnotes⟩ := failed_cases h
  -- A step tells one thing only, so its notes are those of a rejection that there is.
  have hsame {fault' : Fault} {arguments' : List String} {notes' : Array Diagnostic}
      {m'' : Machine σ} (h' : m.step s = .failed m''
        (#[.error (s.code.positionAt m.pc) fault' arguments'] ++ notes')) : notes = notes' := by
    rw [h] at h'
    injection h' with _ hreport
    exact (Array.append_inj hreport rfl).2
  refine ⟨fault, arguments, notes, rfl, ?_, fun left right => ⟨?_, ?_⟩, fun note => ⟨?_, ?_⟩⟩
  · rcases hnotes with ⟨a, b, -, rfl⟩ | ⟨a, -, rfl⟩ | rfl <;> simp
  · rintro rfl
    rcases hnotes with ⟨a, b, hrejects, heq⟩ | ⟨a, -, heq⟩ | heq
    · cases heq
      exact ⟨a, b, hrejects, rfl, rfl⟩
    · cases heq
    · cases heq
  · rintro ⟨a, b, hrejects, rfl, rfl⟩
    obtain ⟨_, _, _, hstep⟩ := hrejects.step_eq
    exact hsame hstep
  · rintro rfl
    rcases hnotes with ⟨a, b, -, heq⟩ | ⟨a, hrejects, heq⟩ | heq
    · cases heq
    · cases heq
      exact ⟨a, hrejects, rfl⟩
    · cases heq
  · rintro ⟨a, hrejects, rfl⟩
    obtain ⟨_, _, _, hstep⟩ := hrejects.step_eq
    exact hsame hstep

/-- The step from `m` ends the run at `m'`, with this to tell. -/
def EndsAt (s : Setting σ) (m m' : Machine σ) (report : Array Diagnostic) : Prop :=
  m.step s = .finished m' ∧ report = #[] ∨ m.step s = .failed m' report

namespace EndsAt

/-- In code that passes its check the instruction that fails has a place of its own. -/
theorem told (h : m.EndsAt s m' report) (hcheck : s.code.check = .ok ()) (htold : report ≠ #[]) :
    ∃ origin fault arguments notes, s.code.origins[m.pc]? = some origin ∧
      report = #[.error origin.position fault arguments] ++ notes ∧ m.NotesOf s notes := by
  have hstep : m.step s = .failed m' report := by
    rcases h with ⟨-, hreport⟩ | hstep
    · exact absurd hreport htold
    · exact hstep
  obtain ⟨⟨c, hc⟩, -⟩ := failed_cases hstep
  obtain ⟨fault, arguments, notes, hreport, hnotes⟩ := notesOf_failed hstep
  have hlt : m.pc < s.code.origins.size := by
    rw [(Code.check_eq_ok_iff.1 hcheck).1]
    exact (Array.getElem?_eq_some_iff.1 hc).1
  have horigin := Array.getElem?_eq_getElem hlt
  have hposition : s.code.positionAt m.pc = s.code.origins[m.pc].position := by
    rw [Code.positionAt, horigin]
  rw [hposition] at hreport
  exact ⟨_, fault, arguments, notes, horigin, hreport, hnotes⟩

end EndsAt

end Step

end Machine

end StackScript
