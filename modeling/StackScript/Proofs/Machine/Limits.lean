import StackScript.Proofs.Machine.Agreement

/-!
Runs with higher limits. A step looks at the limits only to see whether one of them stops
it, so a run does the same with higher limits up to where it is stopped. Limits only cut
runs short: what a run calls is the beginning of what it calls with higher limits, and a
run that no limit has ended is the same.
-/

namespace StackScript

variable {σ : Type}

/-- Limits that allow whatever others allow. To have no limit on steps allows most. -/
structure Limits.AtMost (limits limits' : Limits) : Prop where
  callDepth : limits.callDepth ≤ limits'.callDepth
  stackSize : limits.stackSize ≤ limits'.stackSize
  steps : ∀ bound', limits'.steps = some bound' → ∃ bound ≤ bound', limits.steps = some bound

def Setting.withLimits (s : Setting σ) (limits : Limits) : Setting σ := { s with limits }

/-- Whether a limit stops the run here. -/
def Progress.hitsLimit : Progress σ → Bool
  | failed _ report => report.any fun d => d.fault.isLimit
  | _ => false

namespace Machine

section Raised

variable {s : Setting σ} {m : Machine σ} {limits : Limits}

theorem hitsLimit_fail (s : Setting σ) (m : Machine σ) (fault : Fault) (argument : String) :
    (fail s m fault argument).hitsLimit = fault.isLimit := by
  simp [fail, Progress.hitsLimit, Diagnostic.error]

theorem WithinLimits.raise (h : m.WithinLimits s) (hle : s.limits.AtMost limits) :
    m.WithinLimits (s.withLimits limits) := by
  refine ⟨?_, Nat.le_trans h.2 hle.stackSize⟩
  refine Option.filter_eq_none_iff.2 fun bound' hbound' => ?_
  obtain ⟨bound, hbound, hsteps⟩ := hle.steps bound' hbound'
  have hlt : m.steps < bound := h.steps_lt hsteps
  have hstarted : m.started.steps = m.steps + 1 := rfl
  rw [decide_eq_true_eq, hstarted]
  omega

/-- An instruction is stopped by a limit, or does the same with higher limits. -/
theorem execute_raise (hle : s.limits.AtMost limits) (c : Command) :
    (execute s m c).hitsLimit = true ∨ execute (s.withLimits limits) m c = execute s m c := by
  have hcall (count : Nat) (wantsValue : Bool) :
      (call s m count wantsValue).hitsLimit = true ∨
        call (s.withLimits limits) m count wantsValue = call s m count wantsValue := by
    unfold call withTop
    cases m.stack.back? with
    | none => exact .inr rfl
    | some callee =>
      dsimp only
      by_cases hshort : m.stack.pop.size < count
      · rw [if_pos hshort, if_pos hshort]
        exact .inr rfl
      · rw [if_neg hshort, if_neg hshort]
        cases callee with
        | function entry =>
          dsimp only
          by_cases hdepth : s.limits.callDepth ≤ m.frames.size
          · rw [if_pos hdepth]
            exact .inl (hitsLimit_fail s _ .stackOverflow _)
          · have hhigher : ¬limits.callDepth ≤ m.frames.size := fun h =>
              hdepth (Nat.le_trans hle.callDepth h)
            rw [if_neg hdepth]
            exact .inr (if_neg hhigher)
        | _ => exact .inr rfl
  obtain ⟨opcode, operand⟩ := c
  cases opcode with
  | callDiscard | callReturn => exact hcall _ _
  | _ => exact .inr rfl

/-- So it is with a step. -/
theorem step_raise (hle : s.limits.AtMost limits) (m : Machine σ) :
    (m.step s).hitsLimit = true ∨ m.step (s.withLimits limits) = m.step s := by
  cases hc : s.code.instructions[m.pc]? with
  | none =>
    have hc' : (s.withLimits limits).code.instructions[m.pc]? = none := hc
    right
    rw [step, step, hc, hc']
  | some c =>
    by_cases hlimits : m.WithinLimits s
    · rw [hlimits.step_eq hc, (hlimits.raise hle).step_eq hc]
      exact execute_raise hle c
    · obtain ⟨fault, argument, hlimit, hstep⟩ := step_of_limit hlimits hc
      left
      rw [hstep, hitsLimit_fail, hlimit]

theorem calls_raise (hle : s.limits.AtMost limits) (n : Nat) (m : Machine σ) :
    calls s n m <+: calls (s.withLimits limits) n m := by
  induction n generalizing m with
  | zero => exact List.prefix_refl []
  | succ n ih =>
    rw [calls, calls]
    rcases step_raise hle m with hlimit | hsame
    · cases hstep : m.step s with
      | next m' =>
        rw [hstep] at hlimit
        cases hlimit
      | finished m' | failed m' report => exact List.nil_prefix
    · rw [hsame]
      cases m.step s with
      | next m' => exact List.prefix_append_right_inj _ |>.2 (ih m')
      | finished m' | failed m' report => exact List.prefix_refl []

/-- A run that no limit has ended is the same with higher limits. -/
theorem proceed_raise (hle : s.limits.AtMost limits) {n : Nat}
    (h : (proceed s n m).hitsLimit = false) :
    proceed (s.withLimits limits) n m = proceed s n m ∧
      calls (s.withLimits limits) n m = calls s n m := by
  induction n generalizing m with
  | zero => exact ⟨rfl, rfl⟩
  | succ n ih =>
    rw [proceed, calls, proceed, calls]
    rw [proceed] at h
    rcases step_raise hle m with hlimit | hsame
    · cases hstep : m.step s with
      | next m' | finished m' =>
        rw [hstep] at hlimit
        cases hlimit
      | failed m' report =>
        rw [hstep] at h hlimit
        exact absurd (h.symm.trans hlimit) Bool.false_ne_true
    · rw [hsame]
      cases hstep : m.step s with
      | next m' =>
        rw [hstep] at h
        obtain ⟨hrun, hcalls⟩ := ih h
        dsimp only
        rw [hrun, hcalls]
        exact ⟨rfl, rfl⟩
      | finished m' | failed m' report => exact ⟨rfl, rfl⟩

end Raised

/-- Limits only cut runs short. With higher limits a run makes the same calls of the host
and then perhaps more, and a run that no limit has ended is the same in all. -/
theorem run_limits_raised (s : Setting σ) (m : Machine σ) {limits : Limits}
    (hle : s.limits.AtMost limits) :
    (∀ n, (behaviour s n m).calls <+: (behaviour (s.withLimits limits) n m).calls) ∧
    ((∀ n, (run s n m).hitsLimit = false) → ∀ n,
      run (s.withLimits limits) n m = run s n m ∧
        behaviour (s.withLimits limits) n m = behaviour s n m) := by
  cases hcheck : s.code.check with
  | error fault =>
    have hcheck' : (s.withLimits limits).code.check = .error fault := hcheck
    have hrun (n : Nat) : run (s.withLimits limits) n m = run s n m := by
      rw [run, run, hcheck, hcheck']
      rfl
    have hsame (n : Nat) : behaviour (s.withLimits limits) n m = behaviour s n m := by
      rw [behaviour, behaviour, hrun, hcheck, hcheck']
    refine ⟨fun n => ?_, fun _ n => ⟨hrun n, hsame n⟩⟩
    exact ⟨[], by rw [List.append_nil, hsame]⟩
  | ok _ =>
    have hcheck' : (s.withLimits limits).code.check = .ok () := hcheck
    have hrun (n : Nat) : run s n m = proceed s n m.reset := by rw [run, hcheck]
    refine ⟨fun n => ?_, fun h n => ?_⟩
    · rw [behaviour_eq_observe hcheck, behaviour_eq_observe hcheck']
      exact calls_raise hle n m.reset
    · have hn := h n
      rw [hrun] at hn
      obtain ⟨hproceed, hcalls⟩ := proceed_raise hle hn
      rw [behaviour_eq_observe hcheck, behaviour_eq_observe hcheck', observe, observe, hrun, run,
        hcheck', hproceed, hcalls]
      exact ⟨rfl, rfl⟩

/-- A script that calls a host twice, cut short after its first call and not cut short. -/
theorem run_limits_raised_twice :
    let code : Code :=
      { instructions := #[⟨.pushString, .zero⟩, ⟨.callDiscard, .zero⟩, ⟨.pushString, .zero⟩,
          ⟨.callDiscard, .zero⟩]
        strings := #["f"]
        origins := #[default, default, default, default] }
    let s (steps : Nat) : Setting Nat :=
      { code, hosts := .counter, limits := { callDepth := 0, stackSize := 1, steps := some steps } }
    (∀ steps, (s steps).limits.AtMost {}) ∧
      (∀ n, (behaviour (s 2) n { host := 0 }).calls <+:
        (behaviour ((s 2).withLimits {}) n { host := 0 }).calls) ∧
      (∀ n, (run (s 4) n { host := 0 }).hitsLimit = false) ∧
      ∀ n, run ((s 4).withLimits {}) n { host := 0 } = run (s 4) n { host := 0 } ∧
        behaviour ((s 4).withLimits {}) n { host := 0 } = behaviour (s 4) n { host := 0 } := by
  intro code s
  have hle (steps : Nat) : (s steps).limits.AtMost {} :=
    ⟨Nat.zero_le _, (by decide : 1 ≤ 10000), nofun⟩
  have hfree : ∀ n, (run (s 4) n { host := 0 }).hitsLimit = false :=
    run_unlimited (n := 5) (by decide +kernel) (by decide +kernel)
  exact ⟨hle, (run_limits_raised (s 2) { host := 0 } (hle 2)).1, hfree,
    (run_limits_raised (s 4) { host := 0 } (hle 4)).2 hfree⟩

end Machine

end StackScript
