import StackScript.Proofs.Machine.Outcomes

/-!
What the limits bound. Between any two instructions of a run no more calls are open than
the limit on their depth allows, the stack is at most one value higher than its limit, and
no more instructions have been carried out than the limit on steps, whatever the code is
and whatever the hosts do to the stack. With a limit on its steps every run ends.
-/

namespace StackScript

variable {σ : Type}

namespace Machine

instance (s : Setting σ) (m : Machine σ) : Decidable (m.WithinLimits s) :=
  inferInstanceAs (Decidable (_ ∧ _))

/-- The instruction that the next step carries out: none behind the end of the code, and
none where a limit stops the run. -/
def nextCommand? (s : Setting σ) (m : Machine σ) : Option Command :=
  s.code.instructions[m.pc]?.filter fun _ => m.WithinLimits s

/-- The instructions that are carried out in so many steps, one that fails included. -/
def commands (s : Setting σ) : Nat → Machine σ → List Command
  | 0, _ => []
  | n + 1, m =>
    match nextCommand? s m with
    | none => []
    | some c =>
      c :: match m.step s with
        | .next m' => commands s n m'
        | _ => []

/-- The instructions that a run carries out. Of code that is not run at all there are
none. -/
def runCommands (s : Setting σ) (n : Nat) (m : Machine σ) : List Command :=
  match s.code.check with
  | .ok _ => commands s n m.reset
  | .error _ => []

section Bounds

/-- A machine that has started so many instructions and keeps to the limits, but for a
stack of at most this height. -/
structure Sized (s : Setting σ) (steps height : Nat) (m : Machine σ) : Prop where
  steps : m.steps = steps
  frames : m.frames.size ≤ s.limits.callDepth
  stack : m.stack.size ≤ height

variable {s : Setting σ} {m m' : Machine σ} {steps height : Nat}

theorem Sized.grow (h : m.Sized s steps height) (hgrows : m.Grows s m') :
    m'.Sized s steps (height + 1) :=
  ⟨hgrows.steps.trans h.steps, hgrows.frames h.frames,
    Nat.le_trans hgrows.stack (Nat.succ_le_succ h.stack)⟩

/-- A step that carries out no instruction ends the run. -/
theorem step_trichotomy (s : Setting σ) (m : Machine σ) :
    (nextCommand? s m = none ∧ m.step s = .finished m) ∨
      (nextCommand? s m = none ∧ ∃ fault argument, fault.isLimit = true ∧
        m.step s = Machine.fail s m.started fault argument) ∨
      ∃ c, nextCommand? s m = some c ∧ m.WithinLimits s ∧
        m.step s = Machine.execute s m.started c := by
  cases hc : s.code.instructions[m.pc]? with
  | none => exact .inl ⟨by simp [nextCommand?, hc], by rw [step, hc]⟩
  | some c =>
    by_cases hlimits : m.WithinLimits s
    · exact .inr (.inr ⟨c, by simp [nextCommand?, hc, hlimits], hlimits, hlimits.step_eq hc⟩)
    · exact .inr (.inl ⟨by simp [nextCommand?, hc, hlimits], step_of_limit hlimits hc⟩)

/-- A step leaves room within the limits. If the run goes on, it has taken up one of the
steps that the run may have. -/
theorem Sized.step (h : m.Sized s steps (s.limits.stackSize + 1)) :
    match m.step s with
    | .next m' => m'.Sized s (steps + 1) (s.limits.stackSize + 1) ∧
        ∀ bound, s.limits.steps = some bound → steps < bound
    | .finished m' | .failed m' _ => m'.frames.size ≤ s.limits.callDepth ∧
        m'.stack.size ≤ s.limits.stackSize + 1 := by
  rcases step_trichotomy s m with ⟨-, hstep⟩ | ⟨-, fault, argument, -, hstep⟩ |
    ⟨c, -, hlimits, hstep⟩
  · rw [hstep]
    exact ⟨h.frames, h.stack⟩
  · rw [hstep]
    exact ⟨h.frames, h.stack⟩
  · -- The stack was tested before the instruction, which may leave one value more.
    have hstarted : m.started.Sized s (steps + 1) s.limits.stackSize :=
      ⟨congrArg (· + 1) h.steps, h.frames, hlimits.2⟩
    have hdone := hstarted.grow (execute_outcome s m.started c).grows
    rw [hstep]
    cases hp : Machine.execute s m.started c with
    | next m' =>
      rw [hp] at hdone
      exact ⟨hdone, fun bound hbound => h.steps ▸ hlimits.steps_lt hbound⟩
    | finished m' | failed m' report =>
      rw [hp] at hdone
      exact ⟨hdone.frames, hdone.stack⟩

/-- So does a run, which goes on for no more steps than it may have. -/
theorem Sized.proceed (h : m.Sized s steps (s.limits.stackSize + 1)) (n : Nat) :
    (proceed s n m).machine.frames.size ≤ s.limits.callDepth ∧
      (proceed s n m).machine.stack.size ≤ s.limits.stackSize + 1 ∧
      ∀ bound, s.limits.steps = some bound → steps ≤ bound →
        (proceed s n m).isEnded = false → steps + n ≤ bound := by
  induction n generalizing m steps with
  | zero => exact ⟨h.frames, h.stack, fun bound _ hle _ => hle⟩
  | succ n ih =>
    have hstep := h.step
    rw [Machine.proceed]
    cases hp : m.step s with
    | next m' =>
      rw [hp] at hstep
      obtain ⟨hsized, hlt⟩ := hstep
      obtain ⟨hframes, hstack, hgoing⟩ := ih hsized
      refine ⟨hframes, hstack, fun bound hbound _ hend => ?_⟩
      have hle := hgoing bound hbound (hlt bound hbound) hend
      omega
    | finished m' | failed m' report =>
      rw [hp] at hstep
      exact ⟨hstep.1, hstep.2, fun _ _ _ hend => by cases hend⟩

theorem Sized.length_commands_le (h : m.Sized s steps (s.limits.stackSize + 1)) (n : Nat)
    {bound : Nat} (hbound : s.limits.steps = some bound) (hle : steps ≤ bound) :
    steps + (commands s n m).length ≤ bound := by
  induction n generalizing m steps with
  | zero => exact hle
  | succ n ih =>
    rw [commands]
    rcases step_trichotomy s m with ⟨hnone, -⟩ | ⟨hnone, -⟩ | ⟨c, hsome, hlimits, -⟩
    · rw [hnone]
      exact hle
    · rw [hnone]
      exact hle
    · rw [hsome]
      have hlt : steps < bound := h.steps ▸ hlimits.steps_lt hbound
      have hstep := h.step
      dsimp only
      cases hp : m.step s with
      | next m' =>
        rw [hp] at hstep
        have hrest := ih hstep.1 hlt
        dsimp only
        rw [List.length_cons]
        omega
      | finished m' | failed m' report =>
        rw [List.length_singleton]
        exact hlt

end Bounds

/-- However a run goes and whatever the hosts do, the limits bound the calls that are open,
the stack and the instructions that are carried out. With a limit on its steps every run
ends. -/
theorem run_within_limits (s : Setting σ) (m : Machine σ) :
    (∀ n, (run s n m).machine.frames.size ≤ s.limits.callDepth ∧
      (run s n m).machine.stack.size ≤ s.limits.stackSize + 1) ∧
    ∀ bound, s.limits.steps = some bound →
      (∀ n, (runCommands s n m).length ≤ bound) ∧
      ∀ n, bound < n → (run s n m).isEnded = true := by
  have hreset : m.reset.Sized s 0 (s.limits.stackSize + 1) :=
    ⟨rfl, Nat.zero_le _, Nat.zero_le _⟩
  unfold run runCommands
  cases s.code.check with
  | error fault =>
    exact ⟨fun _ => ⟨hreset.frames, hreset.stack⟩,
      fun _ _ => ⟨fun _ => Nat.zero_le _, fun _ _ => rfl⟩⟩
  | ok _ =>
    refine ⟨fun n => ⟨(hreset.proceed n).1, (hreset.proceed n).2.1⟩, fun bound hbound => ⟨?_, ?_⟩⟩
    · intro n
      have hle := hreset.length_commands_le n hbound (Nat.zero_le _)
      rwa [Nat.zero_add] at hle
    · intro n hlt
      refine eq_true_of_ne_false fun hgoing => ?_
      have hle := (hreset.proceed n).2.2 bound hbound (Nat.zero_le _) hgoing
      omega

/-- A loop that calls a host, which leaves seven values on the stack and takes what lies
below. The value of each call stays there, and the run meets both its limits. -/
theorem run_within_limits_flooded :
    let code : Code :=
      { instructions := #[⟨.pushString, .zero⟩, ⟨.callReturn, .zero⟩, ⟨.goto, .zero⟩]
        strings := #["f"]
        origins := #[default, default, default] }
    let s : Setting Unit :=
      { code, hosts := ⟨[("f", fun _ _ => ⟨Array.replicate 7 .null, 1, ()⟩)]⟩
        limits := { stackSize := 3, steps := some 8 } }
    let m : Machine Unit := { host := () }
    s.limits.steps = some 8 ∧ (∀ n, (run s n m).machine.stack.size ≤ 4) ∧
      (∀ n, (runCommands s n m).length ≤ 8) ∧ (∀ n, 8 < n → (run s n m).isEnded = true) ∧
      run s 8 m = .going { pc := 2, stack := .replicate 3 .null, steps := 8, host := () } ∧
      (runCommands s 8 m).length = 8 := by
  intro code s m
  obtain ⟨hroom, hsteps⟩ := run_within_limits s m
  exact ⟨rfl, fun n => (hroom n).2, (hsteps 8 rfl).1, (hsteps 8 rfl).2, by decide +kernel,
    by decide +kernel⟩

/-- The stack may be one value higher than its limit. -/
example : (run { code := { instructions := #[⟨.pushNull, .zero⟩], origins := #[default] }
                 hosts := {}, limits := { stackSize := 0 } } 1
    { host := () }).machine.stack.size = 0 + 1 := rfl

end Machine

end StackScript
