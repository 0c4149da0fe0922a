import StackScript.Proofs.Machine.Trace

/-!
Machines that stand alike. Two machines may run the same code at the same place, with the
same stack and the same open calls, and differ in their variables and in what their hosts
share. An instruction that is not about variables or calls then does the same on both.
When two machines do the same depends on how they belong together, so it is a relation
between what they come to.
-/

namespace StackScript

variable {σ τ : Type}

/-- Instructions that look at nothing but the stack, the open calls and the constants. -/
def Opcode.isLocal : Opcode → Bool
  | pushGlobal | defineGlobal | setGlobal | callDiscard | callReturn => false
  | _ => true

namespace Machine

/-- A machine at the same place with other variables and another host. -/
def elsewhere (m : Machine σ) (globals : Globals) (host : τ) : Machine τ := { m with globals, host }

@[simp] theorem globals_elsewhere (m : Machine σ) (globals : Globals) (host : τ) :
    (m.elsewhere globals host).globals = globals := rfl

/-- To end and to fail alike at this place is to do the same. -/
structure StopsAlike (m : Machine σ) (globals : Globals) (host : τ)
    (Same : Progress σ → Progress τ → Prop) : Prop where
  failed : ∀ stack report,
    Same (.failed { m with stack } report)
      (.failed ({ m with stack }.elsewhere globals host) report)
  finished : ∀ stack,
    Same (.finished { m with stack }) (.finished ({ m with stack }.elsewhere globals host))

/-- To go on alike from this place is to do the same, too. -/
structure GoesAlike (m : Machine σ) (globals : Globals) (host : τ)
    (Same : Progress σ → Progress τ → Prop) : Prop extends StopsAlike m globals host Same where
  next : ∀ pc stack frames, Same (.next { m with pc, stack, frames })
    (.next ({ m with pc, stack, frames }.elsewhere globals host))

section Alike

variable {s : Setting σ} {s' : Setting τ} {m : Machine σ} {globals : Globals} {host : τ}
  {Same : Progress σ → Progress τ → Prop}

namespace StopsAlike

theorem lower (h : m.StopsAlike globals host Same) (stack : Array Value) :
    { m with stack }.StopsAlike globals host Same := ⟨h.failed, h.finished⟩

theorem fail (hcode : s'.code = s.code) (h : m.StopsAlike globals host Same) (fault : Fault)
    (argument : String) :
    Same (fail s m fault argument) (fail s' (m.elsewhere globals host) fault argument) := by
  unfold Machine.fail
  rw [hcode]
  exact h.failed m.stack _

theorem withTop (hcode : s'.code = s.code) (h : m.StopsAlike globals host Same)
    {f : Value → Machine σ → Progress σ} {g : Value → Machine τ → Progress τ}
    (hfg : ∀ v, m.stack.back? = some v → Same (f v { m with stack := m.stack.pop })
      (g v ({ m with stack := m.stack.pop }.elsewhere globals host))) :
    Same (withTop s m f) (withTop s' (m.elsewhere globals host) g) := by
  have hstack : (m.elsewhere globals host).stack = m.stack := rfl
  unfold Machine.withTop
  rw [hstack]
  cases hv : m.stack.back? with
  | none => exact h.fail hcode _ _
  | some v => exact hfg v hv

theorem withName (hcode : s'.code = s.code) (h : m.StopsAlike globals host Same) (index : Nat)
    {f : String → Machine σ → Progress σ} {g : String → Machine τ → Progress τ}
    (hfg : ∀ name, Same (f name m) (g name (m.elsewhere globals host))) :
    Same (withName s m index f) (withName s' (m.elsewhere globals host) index g) := by
  unfold Machine.withName
  rw [hcode]
  cases s.code.strings[index]? with
  | none => exact h.fail hcode _ _
  | some name => exact hfg name

/-- A step does the same if the instruction does. -/
theorem step (hcode : s'.code = s.code) (hlimits : s'.limits = s.limits)
    (h : m.StopsAlike globals host Same) (hstarted : m.started.StopsAlike globals host Same)
    (hsame : ∀ c, s.code.instructions[m.pc]? = some c →
      Same (execute s m.started c) (execute s' (m.started.elsewhere globals host) c)) :
    Same (m.step s) ((m.elsewhere globals host).step s') := by
  have hnext : s'.code.instructions[(m.elsewhere globals host).pc]? =
      s.code.instructions[m.pc]? := by rw [hcode]; rfl
  cases hc : s.code.instructions[m.pc]? with
  | none =>
    rw [Machine.step, Machine.step, hnext, hc]
    exact h.finished m.stack
  | some c =>
    have hout : isOutOfSteps s' (m.elsewhere globals host).started = isOutOfSteps s m.started := by
      unfold isOutOfSteps
      rw [hlimits]
      rfl
    rw [step_of_command hc, step_of_command (hnext.trans hc), hout, hlimits]
    cases isOutOfSteps s m.started with
    | some limit => exact hstarted.fail hcode _ _
    | none =>
      change Same (if s.limits.stackSize < m.stack.size then _ else _)
        (if s.limits.stackSize < m.stack.size then _ else _)
      split
      · exact hstarted.fail hcode _ _
      · exact hsame c hc

end StopsAlike

namespace GoesAlike

theorem lower (h : m.GoesAlike globals host Same) (stack : Array Value) :
    { m with stack }.GoesAlike globals host Same := ⟨h.toStopsAlike.lower stack, h.next⟩

theorem pushConstant (hcode : s'.code = s.code) (h : m.GoesAlike globals host Same)
    (constant : Option Value) :
    Same (pushConstant s m constant) (pushConstant s' (m.elsewhere globals host) constant) := by
  cases constant with
  | none => exact h.fail hcode _ _
  | some v => exact h.next _ (m.stack.push v) _

theorem unary (hcode : s'.code = s.code) (h : m.GoesAlike globals host Same) (op : UnaryOp) :
    Same (unary s m op) (unary s' (m.elsewhere globals host) op) := by
  refine h.withTop hcode fun v _ => ?_
  rw [hcode]
  cases op.apply v with
  | ok result => exact h.next _ (m.stack.pop.push result) _
  | error fault => exact h.failed m.stack.pop _

theorem binary (hcode : s'.code = s.code) (h : m.GoesAlike globals host Same) (op : BinaryOp) :
    Same (binary s m op) (binary s' (m.elsewhere globals host) op) := by
  refine h.withTop hcode fun b _ => ?_
  refine (h.lower m.stack.pop).withTop hcode fun a _ => ?_
  rw [hcode]
  cases op.apply a b with
  | ok result => exact h.next _ (m.stack.pop.pop.push result) _
  | error fault => exact h.failed m.stack.pop.pop _

theorem leave (h : m.GoesAlike globals host Same) (value : Option Value) :
    Same (m.leave value) ((m.elsewhere globals host).leave value) := by
  have hframes : (m.elsewhere globals host).frames = m.frames := rfl
  unfold Machine.leave
  rw [hframes]
  cases m.frames.back? with
  | none => exact h.finished m.stack
  | some frame => exact h.next frame.returnTo _ m.frames.pop

theorem execute (hcode : s'.code = s.code) (h : m.GoesAlike globals host Same) {c : Command}
    (hlocal : c.opcode.isLocal = true) :
    Same (execute s m c) (execute s' (m.elsewhere globals host) c) := by
  obtain ⟨opcode, operand⟩ := c
  cases opcode with
  | pushGlobal | defineGlobal | setGlobal | callDiscard | callReturn => cases hlocal
  | nop | goto => exact h.next _ m.stack m.frames
  | pushNull | pushBool | pushFunction => exact h.next _ (m.stack.push _) _
  | pushInt | pushNumber | pushString =>
    simp only [Machine.execute, hcode]
    exact h.pushConstant hcode _
  | pop =>
    have hstack : (m.elsewhere globals host).stack = m.stack := rfl
    simp only [Machine.execute]
    rw [hstack]
    split
    · exact h.fail hcode _ _
    · exact h.next _ (m.stack.shrink _) _
  | dup =>
    simp only [Machine.execute]
    exact h.withTop hcode fun v _ => h.next _ ((m.stack.pop.push v).push v) _
  | ifTrueGoto =>
    simp only [Machine.execute]
    refine h.withTop hcode fun v _ => ?_
    split
    · exact h.next _ m.stack.pop _
    · exact h.next _ m.stack.pop _
  | ret =>
    simp only [Machine.execute]
    split
    · exact h.withTop hcode fun v _ => (h.lower m.stack.pop).leave (some v)
    · exact h.leave none
  | negate | not | bitNot =>
    simp only [Machine.execute]
    exact h.unary hcode _
  | _ =>
    simp only [Machine.execute]
    exact h.binary hcode _

end GoesAlike

end Alike

end Machine

end StackScript
