import StackScript.Proofs.Machine.Matching

/-!
The instructions one by one, in front of a machine that agrees with the world. Each
lemma says either that an instruction matches something that is carried out in one
go, or where the machine stands behind it. Underflows, missing constants and limits
do not come up: the stack is known, the constants are there, and no limit ends the
run.
-/

namespace StackScript

variable {σ α : Type}

section Results

variable {a b v : Value}

theorem UnaryOp.apply_ne_function {op : UnaryOp} (h : op.apply a = .ok v) (entry : UInt32) :
    v ≠ .function entry := by
  unfold UnaryOp.apply at h
  split at h <;> cases h <;> simp

theorem BinaryOp.apply_ne_function {op : BinaryOp} (h : op.apply a b = .ok v) (entry : UInt32) :
    v ≠ .function entry := by
  have harithmetic {f g} (h : arithmetic f g a b = .ok v) : v ≠ .function entry := by
    unfold arithmetic at h
    split at h
    · cases h; simp
    · split at h <;> cases h; simp
  have hcomparison {test} (h : comparison test a b = .ok v) : v ≠ .function entry := by
    unfold comparison at h
    split at h
    · cases h; simp
    · split at h <;> cases h; simp
  have hintegral {f} (h : integral f a b = .ok v) : v ≠ .function entry := by
    unfold integral at h
    split at h <;> cases h; simp
  have hequality {f : Bool → Value} (hf : ∀ x, f x ≠ .function entry)
      (h : (equality a b).map f = .ok v) : v ≠ .function entry := by
    cases hx : equality a b with
    | ok x =>
      rw [hx] at h
      cases h
      exact hf x
    | error fault =>
      rw [hx] at h
      cases h
  have hother (h : (if a.isNull || b.isNull then .error .onNull else applyNonNull op a b) = .ok v) :
      v ≠ .function entry := by
    split at h
    · cases h
    · unfold applyNonNull at h
      split at h
      · unfold concatenation at h
        split at h
        · cases h; simp
        · exact harithmetic h
      · exact harithmetic h
      · exact harithmetic h
      · split at h
        · cases h
        · exact harithmetic h
      · split at h
        · cases h
        · exact hintegral h
      · exact hcomparison h
      · exact hcomparison h
      · exact hcomparison h
      · exact hcomparison h
      · exact hintegral h
      · exact hintegral h
      · cases h
      · cases h
  unfold apply at h
  split at h
  · exact hequality (by simp) h
  · exact hequality (by simp) h
  · exact hother h

end Results

namespace Code.Holds

variable {code : Code} {pc n : Nat} {opcode : Opcode} {p : Position} {ps : List Position}

theorem positionAt_eq (h : code.Holds pc opcode n p ps) : code.positionAt pc = p := by
  obtain ⟨operand, -, -, horigin⟩ := h
  rw [positionAt, horigin]

theorem operandPositionAt_eq {i : Nat} {q : Position} (h : code.Holds pc opcode n p ps)
    (hq : ps[i]? = some q) : code.operandPositionAt pc i = q := by
  obtain ⟨operand, -, -, horigin⟩ := h
  rw [operandPositionAt, horigin]
  simp only [hq, Option.getD_some]

end Code.Holds

namespace Machine

variable {s : Setting σ} {start : σ} {bound pc pc' n : Nat} {m : Machine σ} {w w' : World σ}
  {stack stack' : Array Value} {frames frames' : Array Frame} {opcode : Opcode} {p : Position}
  {ps : List Position} {A : α → World σ → Machine σ → Prop} {r : Direct.Result σ α}

@[simp] theorem pc_machine (steps : Nat) : (w.machine pc stack frames steps).pc = pc := rfl

@[simp] theorem stack_machine (steps : Nat) :
    (w.machine pc stack frames steps).stack = stack := rfl

@[simp] theorem withTop_machine {v : Value} (steps : Nat) (f : Value → Machine σ → Progress σ) :
    withTop s (w.machine pc (stack.push v) frames steps) f =
      f v (w.machine pc stack frames steps) := by
  simp only [withTop, World.machine, Array.back?_push, Array.pop_push]

theorem shrink_append (stack values : Array Value) :
    (stack ++ values).shrink stack.size = stack := by
  rw [Array.shrink_eq_take, Array.take_eq_extract, Array.extract_append_left,
    Array.extract_size]

theorem shrink_push (stack : Array Value) (v : Value) :
    (stack.push v).shrink stack.size = stack := by
  rw [Array.push_eq_append, shrink_append]

namespace Stands

theorem step_eq (h : m.Stands s start w pc stack frames) (hc : s.code.Holds pc opcode n p ps) :
    ∃ (operand : Operand) (steps : Nat), operand.val = n ∧
      m.step s = execute s (w.machine pc stack frames steps) ⟨opcode, operand⟩ := by
  obtain ⟨operand, hcommand, hn, -⟩ := hc
  obtain ⟨steps, hmachine⟩ := h.machine_eq
  have hpc : m.pc = pc := by rw [hmachine]; rfl
  refine ⟨operand, steps + 1, hn, ?_⟩
  rw [h.unlimited.step_eq (hpc ▸ hcommand), hmachine]
  rfl

theorem next (h : m.Stands s start w pc stack frames) (hc : s.code.Holds pc opcode n p ps)
    (hsound : w'.Sound s start)
    (hexec : ∀ (operand : Operand) (steps : Nat), operand.val = n →
      execute s (w.machine pc stack frames steps) ⟨opcode, operand⟩ =
        .next (w'.machine pc' stack' frames' steps)) :
    ∃ m', m.step s = .next m' ∧ m'.Stands s start w' pc' stack' frames' := by
  obtain ⟨operand, steps, hn, hstep⟩ := h.step_eq hc
  rw [hexec operand steps hn] at hstep
  refine ⟨_, hstep, ?_, hsound, steps, rfl⟩
  exact h.unlimited.proceed (n := 1) (by rw [proceed, hstep]; rfl)

theorem hostCall?_eq_none (h : m.Stands s start w pc stack frames)
    (hc : s.code.Holds pc opcode n p ps)
    (hquiet : opcode ≠ .callDiscard ∧ opcode ≠ .callReturn) : hostCall? s m = none := by
  obtain ⟨operand, hcommand, -, -⟩ := hc
  obtain ⟨steps, rfl⟩ := h.machine_eq
  change s.code.instructions[(w.machine pc stack frames steps).pc]? = _ at hcommand
  unfold hostCall?
  rw [hcommand]
  split
  · next heq => cases heq; exact absurd rfl hquiet.1
  · next heq => cases heq; exact absurd rfl hquiet.2
  · rfl

end Stands

namespace Matches

theorem next (h : m.Stands s start w pc stack frames) (hc : s.code.Holds pc opcode n p ps)
    (hsound : w'.Sound s start) (hgrows : w.Grows w')
    (hcalls : w'.calls = w.calls ++ (hostCall? s m).toList)
    (hexec : ∀ (operand : Operand) (steps : Nat), operand.val = n →
      execute s (w.machine pc stack frames steps) ⟨opcode, operand⟩ =
        .next (w'.machine pc' stack' frames' steps))
    (hrest : ∀ m', m'.Stands s start w' pc' stack' frames' → Matches s bound m' w' A r) :
    Matches s (bound + 1) m w A r := by
  obtain ⟨m', hstep, hstands⟩ := h.next hc hsound hexec
  exact .step hstep hcalls hgrows (hrest m' hstands)

/-- An instruction that changes the world and calls nothing. -/
theorem change (h : m.Stands s start w pc stack frames) (hc : s.code.Holds pc opcode n p ps)
    (hquiet : opcode ≠ .callDiscard ∧ opcode ≠ .callReturn) (hsound : w'.Sound s start)
    (hgrows : w.Grows w') (hcalls : w'.calls = w.calls)
    (hexec : ∀ (operand : Operand) (steps : Nat), operand.val = n →
      execute s (w.machine pc stack frames steps) ⟨opcode, operand⟩ =
        .next (w'.machine pc' stack' frames' steps))
    (hrest : ∀ m', m'.Stands s start w' pc' stack' frames' → Matches s bound m' w' A r) :
    Matches s (bound + 1) m w A r := by
  refine next h hc hsound hgrows ?_ hexec hrest
  rw [h.hostCall?_eq_none hc hquiet, hcalls, Option.toList_none, List.append_nil]

/-- An instruction that leaves the world as it is. -/
theorem move (h : m.Stands s start w pc stack frames) (hc : s.code.Holds pc opcode n p ps)
    (hquiet : opcode ≠ .callDiscard ∧ opcode ≠ .callReturn)
    (hexec : ∀ (operand : Operand) (steps : Nat), operand.val = n →
      execute s (w.machine pc stack frames steps) ⟨opcode, operand⟩ =
        .next (w.machine pc' stack' frames' steps))
    (hrest : ∀ m', m'.Stands s start w pc' stack' frames' → Matches s bound m' w A r) :
    Matches s (bound + 1) m w A r :=
  change h hc hquiet h.sound (.refl w) rfl hexec hrest

/-- An instruction that fails. -/
theorem stop {report : Array Diagnostic} (stack' : Array Value)
    (h : m.Stands s start w pc stack frames)
    (hc : s.code.Holds pc opcode n p ps)
    (hexec : ∀ (operand : Operand) (steps : Nat), operand.val = n →
      execute s (w.machine pc stack frames steps) ⟨opcode, operand⟩ =
        .failed (w.machine pc stack' frames steps) report) :
    Matches s bound m w A (Direct.stop report w) := by
  obtain ⟨operand, steps, hn, hstep⟩ := h.step_eq hc
  rw [hexec operand steps hn] at hstep
  exact failed hstep rfl rfl

/-- An instruction that puts a value in place of what it takes. -/
theorem push {v : Value} (h : m.Stands s start w pc stack frames)
    (hc : s.code.Holds pc opcode n p ps)
    (hquiet : opcode ≠ .callDiscard ∧ opcode ≠ .callReturn)
    (hknows : w.Knows v)
    (hexec : ∀ (operand : Operand) (steps : Nat), operand.val = n →
      execute s (w.machine pc stack frames steps) ⟨opcode, operand⟩ =
        .next (w.machine (pc + 1) (stack'.push v) frames steps)) :
    Matches s bound m w (HasPushed s start (pc + 1) stack' frames) (.done v w) := by
  refine (move h hc hquiet hexec fun m' h' => ?_).weaken (Nat.le_succ bound)
  exact .done ⟨h', hknows⟩

theorem text {text : String} (h : m.Stands s start w pc stack frames)
    (hc : s.code.HoldsText pc .pushString text p) :
    Matches s bound m w (HasPushed s start (pc + 1) stack frames) (.done (.string text) w) := by
  obtain ⟨slot, hc, hslot⟩ := hc
  refine push h hc (by decide) (.of_ne (by simp)) fun operand steps hn => ?_
  simp only [execute, hn, hslot]
  rfl

theorem literal {v : Value} (h : m.Stands s start w pc stack frames)
    (hc : s.code.HoldsLiteral pc p v) :
    Matches s bound m w (HasPushed s start (pc + 1) stack frames) (.done v w) := by
  cases v with
  | null => exact push h hc (by decide) (.of_ne (by simp)) fun operand steps hn => rfl
  | bool b =>
    refine push h hc (by decide) (.of_ne (by simp)) fun operand steps hn => ?_
    simp only [execute, hn]
    cases b <;> rfl
  | int i =>
    obtain ⟨slot, hc, hslot⟩ := hc
    refine push h hc (by decide) (.of_ne (by simp)) fun operand steps hn => ?_
    simp only [execute, hn, hslot]
    rfl
  | number x =>
    obtain ⟨slot, hc, hslot⟩ := hc
    refine push h hc (by decide) (.of_ne (by simp)) fun operand steps hn => ?_
    simp only [execute, hn, hslot]
    rfl
  | string text => exact .text h hc
  | function entry => exact hc.elim

theorem unary {op : UnaryOp} (operand : Position × Value)
    (h : m.Stands s start w pc (stack.push operand.2) frames)
    (hc : s.code.Holds pc op.opcode 0 p [operand.1]) :
    Matches s bound m w (HasPushed s start (pc + 1) stack frames)
      (Direct.unary op p operand w) := by
  have hquiet : op.opcode ≠ .callDiscard ∧ op.opcode ≠ .callReturn := by cases op <;> decide
  have hexec (m : Machine σ) (n : Operand) :
      execute s m ⟨op.opcode, n⟩ = Machine.unary s m op := by cases op <;> rfl
  have hoperand := hc.operandPositionAt_eq (i := 0) rfl
  unfold Direct.unary
  cases happly : op.apply operand.2 with
  | ok result =>
    refine push h hc hquiet (.of_ne (op.apply_ne_function happly)) fun _ steps _ => ?_
    simp only [hexec, Machine.unary, withTop_machine, happly]
    rfl
  | error fault =>
    refine stop stack h hc fun _ steps _ => ?_
    simp only [hexec, Machine.unary, withTop_machine, happly]
    simp only [pc_machine, hc.positionAt_eq, hoperand]

theorem binary {op : BinaryOp} (left right : Position × Value)
    (h : m.Stands s start w pc ((stack.push left.2).push right.2) frames)
    (hc : s.code.Holds pc op.opcode 0 p [left.1, right.1]) :
    Matches s bound m w (HasPushed s start (pc + 1) stack frames)
      (Direct.binary op p left right w) := by
  have hquiet : op.opcode ≠ .callDiscard ∧ op.opcode ≠ .callReturn := by cases op <;> decide
  have hexec (m : Machine σ) (n : Operand) :
      execute s m ⟨op.opcode, n⟩ = Machine.binary s m op := by cases op <;> rfl
  have hleft := hc.operandPositionAt_eq (i := 0) rfl
  have hright := hc.operandPositionAt_eq (i := 1) rfl
  unfold Direct.binary
  cases happly : op.apply left.2 right.2 with
  | ok result =>
    refine push h hc hquiet (.of_ne (op.apply_ne_function happly)) fun _ steps _ => ?_
    simp only [hexec, Machine.binary, withTop_machine, happly]
    rfl
  | error fault =>
    refine stop stack h hc fun _ steps _ => ?_
    simp only [hexec, Machine.binary, withTop_machine, happly]
    simp only [pc_machine, hc.positionAt_eq, hleft, hright]

section Conditions

variable {v : Value}

theorem dup (h : m.Stands s start w pc (stack.push v) frames) (hc : s.code.Holds pc .dup n p)
    (hrest : ∀ m', m'.Stands s start w (pc + 1) ((stack.push v).push v) frames →
      Matches s bound m' w A r) : Matches s bound m w A r := by
  refine (move h hc (by decide) (fun operand steps hn => ?_) hrest).weaken (Nat.le_succ bound)
  simp only [execute, withTop_machine]
  rfl

theorem pop (h : m.Stands s start w pc (stack.push v) frames) (hc : s.code.Holds pc .pop 1 p)
    (hrest : ∀ m', m'.Stands s start w (pc + 1) stack frames → Matches s bound m' w A r) :
    Matches s bound m w A r := by
  refine (move h hc (by decide) (fun operand steps hn => ?_) hrest).weaken (Nat.le_succ bound)
  have hsize : ¬(stack.push v).size < 1 := by
    rw [Array.size_push]
    omega
  simp only [execute, hn, stack_machine, if_neg hsize]
  rw [Array.size_push, Nat.add_sub_cancel, shrink_push]
  rfl

theorem not (h : m.Stands s start w pc (stack.push v) frames) (hc : s.code.Holds pc .not n p)
    (hrest : ∀ m', m'.Stands s start w (pc + 1) (stack.push (.bool !v.isTruthy)) frames →
      Matches s bound m' w A r) : Matches s bound m w A r := by
  refine (move h hc (by decide) (fun operand steps hn => ?_) hrest).weaken (Nat.le_succ bound)
  simp only [execute, Machine.unary, withTop_machine]
  rfl

theorem goto (h : m.Stands s start w pc stack frames) (hc : s.code.Holds pc .goto n p)
    (hrest : ∀ m', m'.Stands s start w n stack frames → Matches s bound m' w A r) :
    Matches s (bound + 1) m w A r := by
  refine move h hc (by decide) (fun operand steps hn => ?_) hrest
  simp only [execute, hn]
  rfl

theorem ifTrueGoto (h : m.Stands s start w pc (stack.push v) frames)
    (hc : s.code.Holds pc .ifTrueGoto n p)
    (hrest : ∀ m', m'.Stands s start w (if v.isTruthy then n else pc + 1) stack frames →
      Matches s bound m' w A r) : Matches s bound m w A r := by
  refine (move h hc (by decide) (fun operand steps hn => ?_) hrest).weaken (Nat.le_succ bound)
  simp only [execute, hn, withTop_machine]
  split <;> rfl

/-- Two negations leave the truth of a value. -/
theorem truth (h : m.Stands s start w pc (stack.push v) frames) (hc : s.code.Holds pc .not n p)
    (hc' : s.code.Holds (pc + 1) .not n p) :
    Matches s bound m w (HasPushed s start (pc + 2) stack frames)
      (.done (.bool v.isTruthy) w) := by
  refine not h hc fun m₁ h₁ => not h₁ hc' fun m₂ h₂ => .done ⟨?_, .of_ne (by simp)⟩
  simpa only [Value.isTruthy, Bool.not_not] using h₂

/-- The test of the left operand either leaves it where the second operand would leave
its value, or takes it away. -/
theorem test {op : LogicalOp} (h : m.Stands s start w pc (stack.push v) frames)
    (hc : s.code.HoldsTest pc n p op)
    (hsettled : op.isSettledBy v.isTruthy = true → ∀ m',
      m'.Stands s start w n (stack.push v) frames → Matches s bound m' w A r)
    (hopen : op.isSettledBy v.isTruthy = false → ∀ m',
      m'.Stands s start w (pc + op.gap) stack frames → Matches s bound m' w A r) :
    Matches s bound m w A r := by
  cases op with
  | and =>
    obtain ⟨hdup, hnot, hgoto, hpop⟩ := hc
    refine dup h hdup fun m₁ h₁ => not h₁ hnot fun m₂ h₂ => ifTrueGoto h₂ hgoto fun m₃ h₃ => ?_
    cases hv : v.isTruthy with
    | true =>
      rw [hv] at h₃ hopen
      exact pop h₃ hpop (hopen rfl)
    | false =>
      rw [hv] at h₃ hsettled
      exact hsettled rfl m₃ h₃
  | or =>
    obtain ⟨hdup, hgoto, hpop⟩ := hc
    refine dup h hdup fun m₁ h₁ => ifTrueGoto h₁ hgoto fun m₂ h₂ => ?_
    cases hv : v.isTruthy with
    | true =>
      rw [hv] at h₂ hsettled
      exact hsettled rfl m₂ h₂
    | false =>
      rw [hv] at h₂ hopen
      exact pop h₂ hpop (hopen rfl)

theorem branch (h : m.Stands s start w pc (stack.push v) frames)
    (hc : s.code.HoldsBranch pc n p)
    (htrue : v.isTruthy = true → ∀ m', m'.Stands s start w (pc + 2) stack frames →
      Matches s bound m' w A r)
    (hfalse : v.isTruthy = false → ∀ m', m'.Stands s start w n stack frames →
      Matches s bound m' w A r) : Matches s bound m w A r := by
  obtain ⟨hnot, hgoto⟩ := hc
  refine not h hnot fun m₁ h₁ => ifTrueGoto h₁ hgoto fun m₂ h₂ => ?_
  cases hv : v.isTruthy with
  | true =>
    rw [hv] at h₂
    exact htrue hv m₂ h₂
  | false =>
    rw [hv] at h₂
    exact hfalse hv m₂ h₂

end Conditions

end Matches

end Machine

end StackScript
