import StackScript.Machine.Run

/-!
What a run asks of the host, and runs that no limit stops. A run that no limit stops
carries out each instruction that it comes to.
-/

namespace StackScript

variable {σ : Type}

/-- Whether an error tells that a limit has been reached. -/
def Fault.isLimit : Fault → Bool
  | stackOverflow | stepLimitExceeded => true
  | _ => false

/-- Whether a limit has ended the run. -/
def Run.hitsLimit (r : Run σ) : Bool := r.report.any fun d => d.fault.isLimit

def Run.isEnded : Run σ → Bool
  | ended _ _ => true
  | going _ => false

namespace Machine

/-- The call of the host that the next instruction makes, by name and arguments. -/
def hostCall? (s : Setting σ) (m : Machine σ) : Option (String × List Value) :=
  match s.code.instructions[m.pc]? with
  | some ⟨.callDiscard, n⟩ | some ⟨.callReturn, n⟩ =>
    match m.stack.back? with
    | some (.string name) =>
      let base := m.stack.pop.size - n.val
      some (name, (m.stack.pop.extract base (base + n.val)).toList)
    | _ => none
  | _ => none

/-- The calls of the host in so many steps. A step that fails has called nothing. -/
def calls (s : Setting σ) : Nat → Machine σ → List (String × List Value)
  | 0, _ => []
  | n + 1, m =>
    match m.step s with
    | .next m' => (hostCall? s m).toList ++ calls s n m'
    | _ => []

variable {s : Setting σ} {m m' : Machine σ}

theorem calls_add {n : Nat} (h : proceed s n m = .going m') (k : Nat) :
    calls s (n + k) m = calls s n m ++ calls s k m' := by
  induction n generalizing m with
  | zero =>
    cases h
    simp [calls]
  | succ n ih =>
    rw [proceed] at h
    rw [Nat.add_right_comm, calls, calls]
    cases hstep : m.step s with
    | next m₁ =>
      rw [hstep] at h
      dsimp only at h ⊢
      rw [ih h, List.append_assoc]
    | finished m₁ | failed m₁ report =>
      rw [hstep] at h
      contradiction

/-- No limit ends the run from here, however far it goes. -/
def Unlimited (s : Setting σ) (m : Machine σ) : Prop := ∀ n, (proceed s n m).hitsLimit = false

theorem Unlimited.proceed {n : Nat} (h : m.Unlimited s) (hgo : proceed s n m = .going m') :
    m'.Unlimited s := by
  intro k
  have hk := h (n + k)
  rwa [proceed_add, hgo] at hk

theorem Unlimited.not_fails {fault : Fault} {argument : String} (h : m.Unlimited s)
    (hstep : m.step s = fail s m' fault argument) : fault.isLimit = false := by
  have h1 := h 1
  rw [Machine.proceed, hstep] at h1
  simpa [fail, Run.hitsLimit, Run.report, Diagnostic.error] using h1

/-- The machine with one more instruction started. -/
def started (m : Machine σ) : Machine σ := { m with steps := m.steps + 1 }

/-- No limit stops the next instruction. -/
def WithinLimits (s : Setting σ) (m : Machine σ) : Prop :=
  isOutOfSteps s m.started = none ∧ m.stack.size ≤ s.limits.stackSize

/-- The limits are looked at before an instruction is carried out. -/
theorem step_of_command {c : Command} (hc : s.code.instructions[m.pc]? = some c) :
    m.step s =
      match isOutOfSteps s m.started with
      | some limit => fail s m.started .stepLimitExceeded (toString limit)
      | none =>
        if s.limits.stackSize < m.stack.size then
          fail s m.started .stackOverflow
            ("stack size limit of " ++ toString s.limits.stackSize ++ " exceeded")
        else execute s m.started c := by
  rw [step, hc]
  rfl

theorem WithinLimits.step_eq {c : Command} (h : m.WithinLimits s)
    (hc : s.code.instructions[m.pc]? = some c) : m.step s = execute s m.started c := by
  rw [step_of_command hc, h.1]
  exact if_neg (Nat.not_lt.2 h.2)

theorem WithinLimits.steps_lt {bound : Nat} (h : m.WithinLimits s)
    (hbound : s.limits.steps = some bound) : m.steps < bound := by
  have hout := h.1
  simp only [isOutOfSteps, hbound, Option.filter_eq_none_iff] at hout
  have hle : ¬bound < m.started.steps := by simpa using hout bound rfl
  exact Nat.le_of_not_lt hle

theorem step_of_limit {c : Command} (h : ¬m.WithinLimits s)
    (hc : s.code.instructions[m.pc]? = some c) :
    ∃ fault argument, fault.isLimit = true ∧ m.step s = fail s m.started fault argument := by
  rw [step_of_command hc]
  cases hout : isOutOfSteps s m.started with
  | some limit => exact ⟨.stepLimitExceeded, toString limit, rfl, rfl⟩
  | none =>
    have hsize : s.limits.stackSize < m.stack.size := Nat.lt_of_not_le fun hle => h ⟨hout, hle⟩
    exact ⟨.stackOverflow, "stack size limit of " ++ toString s.limits.stackSize ++ " exceeded",
      rfl, if_pos hsize⟩

theorem Unlimited.step_eq {c : Command} (h : m.Unlimited s)
    (hc : s.code.instructions[m.pc]? = some c) : m.step s = execute s m.started c := by
  by_cases hlimits : m.WithinLimits s
  · exact hlimits.step_eq hc
  · obtain ⟨fault, argument, hlimit, hstep⟩ := step_of_limit hlimits hc
    rw [h.not_fails hstep] at hlimit
    cases hlimit

/-- A run ends in one way, however long one waits for its end. -/
theorem proceed_unique {n k : Nat} {m₁ m₂ : Machine σ} {report₁ report₂ : Array Diagnostic}
    (h₁ : Machine.proceed s n m = .ended m₁ report₁)
    (h₂ : Machine.proceed s k m = .ended m₂ report₂) : m₁ = m₂ ∧ report₁ = report₂ := by
  have hnk := proceed_add s n k m
  have hkn := proceed_add s k n m
  rw [h₁] at hnk
  rw [h₂, Nat.add_comm, hnk] at hkn
  cases hkn
  exact ⟨rfl, rfl⟩

theorem run_of_check (h : s.code.check = .ok ()) (n : Nat) (m : Machine σ) :
    run s n m = proceed s n m.reset := by
  rw [run, h]

/-- A run that has ended took its last step at some machine that it had reached. -/
theorem exists_last_step {m'' : Machine σ} {n : Nat} {report : Array Diagnostic}
    (h : proceed s n m = .ended m'' report) :
    ∃ k m', proceed s k m = .going m' ∧
      (m'.step s = .finished m'' ∧ report = #[] ∨ m'.step s = .failed m'' report) := by
  induction n generalizing m with
  | zero => cases h
  | succ n ih =>
    rw [proceed] at h
    cases hstep : m.step s with
    | next m₁ =>
      rw [hstep] at h
      obtain ⟨k, m', hgo, hlast⟩ := ih h
      refine ⟨k + 1, m', ?_, hlast⟩
      rw [proceed, hstep]
      exact hgo
    | finished m₁ =>
      rw [hstep] at h
      cases h
      exact ⟨0, m, rfl, .inl ⟨hstep, rfl⟩⟩
    | failed m₁ report =>
      rw [hstep] at h
      cases h
      exact ⟨0, m, rfl, .inr hstep⟩

/-- A run that has ended without reaching a limit has reached none before. -/
theorem unlimited_of_isEnded {n : Nat} (hend : (proceed s n m).isEnded = true)
    (h : (proceed s n m).hitsLimit = false) : m.Unlimited s := by
  intro k
  cases hn : Machine.proceed s n m with
  | going m' =>
    rw [hn] at hend
    cases hend
  | ended m' report =>
    rw [hn] at h
    cases hk : Machine.proceed s k m with
    | going m'' => simp [Run.hitsLimit, Run.report]
    | ended m'' report' =>
      obtain ⟨-, rfl⟩ := proceed_unique hn hk
      exact h

theorem run_unlimited {n : Nat} (hend : (run s n m).isEnded = true)
    (h : (run s n m).hitsLimit = false) (k : Nat) : (run s k m).hitsLimit = false := by
  unfold run at hend h ⊢
  cases hcheck : s.code.check with
  | error fault =>
    rw [hcheck] at h
    exact h
  | ok _ =>
    rw [hcheck] at hend h
    exact unlimited_of_isEnded hend h k

end Machine

end StackScript
