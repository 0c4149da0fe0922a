import StackScript.Proofs.Code.Heights
import StackScript.Proofs.Machine.Trace

/-!
A machine that notices when it would go wrong: each time it refers to an instruction,
a constant or a window of the stack by number, or takes one number from another, it
crashes if there is no such thing. On code that passes its check this machine is the
ordinary one, whatever the host does to the stack and whatever limits and variables a
run begins with.
-/

namespace StackScript

variable {σ α : Type}

/-- What a machine must not do. -/
inductive Crash where
  | outOfRange (index size : Nat)
  | belowZero (amount taken : Nat)
  deriving DecidableEq

abbrev Guarded (α : Type) := Except Crash α

namespace Guarded

def item (xs : Array α) (i : Nat) : Guarded α :=
  match xs[i]? with
  | some x => .ok x
  | none => .error (.outOfRange i xs.size)

def minus (amount taken : Nat) : Guarded Nat :=
  if taken ≤ amount then .ok (amount - taken) else .error (.belowZero amount taken)

/-- What lies from `first` on in front of `last`. -/
def window (xs : Array α) (first last : Nat) : Guarded (List α) :=
  if first ≤ last ∧ last ≤ xs.size then .ok (xs.extract first last).toList
  else .error (.outOfRange (max first last) xs.size)

theorem item_eq {xs : Array α} {i : Nat} {x : α} (h : xs[i]? = some x) : item xs i = .ok x := by
  rw [item, h]

theorem minus_eq {amount taken : Nat} (h : taken ≤ amount) :
    minus amount taken = .ok (amount - taken) := by
  rw [minus, if_pos h]

end Guarded

/-- The window of the stack that holds the arguments, as far as the host has left it. -/
def HostCall.guardedArguments (call : HostCall) : Guarded (List Value) :=
  let last := min (call.base + call.count) call.stack.size
  Guarded.window call.stack (min call.base last) last

theorem HostCall.guardedArguments_eq (call : HostCall) :
    call.guardedArguments = .ok call.arguments := by
  obtain ⟨stack, base, count⟩ := call
  unfold guardedArguments Guarded.window arguments
  have hrange : min base (min (base + count) stack.size) ≤ min (base + count) stack.size ∧
      min (base + count) stack.size ≤ stack.size := ⟨Nat.min_le_right _ _, Nat.min_le_right _ _⟩
  rw [if_pos hrange]
  have hsame : stack.extract (min base (min (base + count) stack.size))
      (min (base + count) stack.size) = stack.extract base (base + count) := by
    refine Array.ext ?_ fun i hi hi' => ?_
    · simp only [Array.size_extract]
      omega
    · rw [Array.size_extract] at hi
      have hfirst : min base (min (base + count) stack.size) = base := by omega
      simp only [Array.getElem_extract, hfirst]
  rw [hsame]

namespace Machine

def guardedTop (s : Setting σ) (m : Machine σ)
    (f : Value → Machine σ → Guarded (Progress σ)) : Guarded (Progress σ) :=
  match m.stack.back? with
  | some v => f v { m with stack := m.stack.pop }
  | none => .ok (underflow s m)

def guardedCall (s : Setting σ) (m : Machine σ) (count : Nat) (wantsValue : Bool) :
    Guarded (Progress σ) :=
  guardedTop s m fun callee m =>
    if m.stack.size < count then .ok (underflow s m)
    else do
      let base ← Guarded.minus m.stack.size count
      match callee with
      | .string name =>
        match s.hosts.find? name with
        | some f =>
          let reply := f ⟨m.stack, base, count⟩ m.host
          return goOn { m with
            stack := settleReply reply base count wantsValue
            host := reply.state }
        | none => return fail s m .unknownFunction name
      | .function entry =>
        if s.limits.callDepth ≤ m.frames.size then
          return fail s m .stackOverflow
            ("call depth limit of " ++ toString s.limits.callDepth ++ " exceeded")
        else
          return goto { m with frames := m.frames.push ⟨m.pc + 1, base, wantsValue⟩ } entry.toNat
      | other => return fail s m .unknownFunction other.text

/-- Carries out one instruction. The instructions that refer to nothing by number and
take nothing away are the ordinary ones. -/
def guardedExecute (s : Setting σ) (m : Machine σ) (c : Command) : Guarded (Progress σ) :=
  let n := c.operand.val
  match c.opcode with
  | .pushInt => do return (m.push (.int (← Guarded.item s.code.ints n))).goOn
  | .pushNumber => do return (m.push (.number (← Guarded.item s.code.numbers n))).goOn
  | .pushString => do return (m.push (.string (← Guarded.item s.code.strings n))).goOn
  | .pushGlobal => do
    let name ← Guarded.item s.code.strings n
    match m.globals.find? name with
    | some v => return (m.push v).goOn
    | none => return fail s m .unknownVariable name
  | .defineGlobal => guardedTop s m fun v m => do
    let name ← Guarded.item s.code.strings n
    return goOn { m with globals := m.globals.put name v }
  | .setGlobal => guardedTop s m fun v m => do
    let name ← Guarded.item s.code.strings n
    match m.globals.find? name with
    | some _ => return goOn { m with globals := m.globals.put name v }
    | none => return fail s m .unknownVariable name
  | .pop =>
    if m.stack.size < n then .ok (underflow s m)
    else do return goOn { m with stack := m.stack.shrink (← Guarded.minus m.stack.size n) }
  | .callDiscard => guardedCall s m n false
  | .callReturn => guardedCall s m n true
  | _ => .ok (execute s m c)

def guardedStep (s : Setting σ) (m : Machine σ) : Guarded (Progress σ) :=
  if m.pc < s.code.size then do
    let command ← Guarded.item s.code.instructions m.pc
    match isOutOfSteps s m.started with
    | some limit => return fail s m.started .stepLimitExceeded (toString limit)
    | none =>
      if s.limits.stackSize < m.stack.size then
        return fail s m.started .stackOverflow
          ("stack size limit of " ++ toString s.limits.stackSize ++ " exceeded")
      else guardedExecute s m.started command
  else return .finished m

def guardedProceed (s : Setting σ) : Nat → Machine σ → Guarded (Run σ)
  | 0, m => .ok (.going m)
  | patience + 1, m => do
    match ← guardedStep s m with
    | .next m => guardedProceed s patience m
    | .finished m => return .ended m #[]
    | .failed m report => return .ended m report

def guardedRun (s : Setting σ) (patience : Nat) (m : Machine σ) : Guarded (Run σ) :=
  match s.code.check with
  | .error fault =>
    .ok (.ended m.reset #[.error (s.code.positionAt 0) .internalError [fault.message]])
  | .ok _ => guardedProceed s patience m.reset

variable {s : Setting σ} {m : Machine σ} {c : Command}

theorem guardedTop_eq {f : Value → Machine σ → Guarded (Progress σ)}
    {g : Value → Machine σ → Progress σ} (h : ∀ v m, f v m = .ok (g v m)) :
    guardedTop s m f = .ok (withTop s m g) := by
  unfold guardedTop withTop
  cases m.stack.back? with
  | some v => exact h v _
  | none => rfl

theorem guardedCall_eq (count : Nat) (wantsValue : Bool) :
    guardedCall s m count wantsValue = .ok (call s m count wantsValue) := by
  refine guardedTop_eq fun callee m => ?_
  split
  · rfl
  next hsize =>
    rw [Guarded.minus_eq (Nat.le_of_not_lt hsize)]
    cases callee with
    | string name =>
      cases hf : s.hosts.find? name with
      | some f | none =>
        simp only [hf]
        rfl
    | function entry =>
      by_cases hdepth : s.limits.callDepth ≤ m.frames.size
      · simp only [if_pos hdepth]
        rfl
      · simp only [if_neg hdepth]
        rfl
    | _ => rfl

/-- No instruction of checked code crashes, on any machine. -/
theorem guardedExecute_eq (h : c.Fits s.code s.code.size) :
    guardedExecute s m c = .ok (execute s m c) := by
  have hitem {α : Type} {xs : Array α} {i : Nat} (hlt : i < xs.size) :
      Guarded.item xs i = .ok xs[i] ∧ xs[i]? = some xs[i] :=
    ⟨Guarded.item_eq (Array.getElem?_eq_getElem hlt), Array.getElem?_eq_getElem hlt⟩
  obtain ⟨opcode, operand⟩ := c
  cases opcode with
  | pushInt | pushNumber | pushString =>
    obtain ⟨hguarded, hplain⟩ := hitem h
    simp only [guardedExecute, execute, hguarded, hplain]
    rfl
  | pushGlobal =>
    obtain ⟨hguarded, hplain⟩ := hitem h
    simp only [guardedExecute, execute, withName, hguarded, hplain]
    cases hv : m.globals.find? s.code.strings[operand.val] with
    | some v | none =>
      simp only [bind, Except.bind, hv]
      rfl
  | defineGlobal =>
    obtain ⟨hguarded, hplain⟩ := hitem h
    simp only [guardedExecute, execute]
    refine guardedTop_eq fun v m => ?_
    simp only [withName, hguarded, hplain]
    rfl
  | setGlobal =>
    obtain ⟨hguarded, hplain⟩ := hitem h
    simp only [guardedExecute, execute]
    refine guardedTop_eq fun v m => ?_
    simp only [withName, hguarded, hplain]
    cases hv : m.globals.find? s.code.strings[operand.val] with
    | some v | none =>
      simp only [bind, Except.bind, hv]
      rfl
  | pop =>
    by_cases hsize : m.stack.size < operand.val
    · simp only [guardedExecute, execute, if_pos hsize]
    · simp only [guardedExecute, execute, if_neg hsize, Guarded.minus_eq (Nat.le_of_not_lt hsize)]
      rfl
  | callDiscard | callReturn => exact guardedCall_eq _ _
  | _ => rfl

theorem guardedStep_eq (h : s.code.check = .ok ()) (m : Machine σ) :
    guardedStep s m = .ok (m.step s) := by
  unfold guardedStep step
  by_cases hpc : m.pc < s.code.size
  · have hc : s.code.instructions[m.pc]? = some s.code.instructions[m.pc] :=
      Array.getElem?_eq_getElem hpc
    have hfits := ((Code.check_eq_ok_iff.1 h).2 m.pc _ hc).1
    rw [if_pos hpc, Guarded.item_eq hc, hc]
    cases hout : isOutOfSteps s m.started with
    | some limit =>
      unfold started at hout ⊢
      simp only [bind, Except.bind, hout]
      rfl
    | none =>
      unfold started at hout ⊢
      by_cases hsize : s.limits.stackSize < m.stack.size
      · simp only [bind, Except.bind, hout, if_pos hsize]
        rfl
      · simp only [bind, Except.bind, hout, if_neg hsize]
        exact guardedExecute_eq hfits
  · rw [if_neg hpc, Array.getElem?_eq_none (Nat.le_of_not_lt hpc)]
    rfl

theorem guardedProceed_eq (h : s.code.check = .ok ()) (n : Nat) (m : Machine σ) :
    guardedProceed s n m = .ok (proceed s n m) := by
  induction n generalizing m with
  | zero => rfl
  | succ n ih =>
    rw [guardedProceed, proceed, guardedStep_eq h]
    cases m.step s with
    | next m' => exact ih m'
    | finished m' | failed m' report => rfl

theorem guardedRun_eq (s : Setting σ) (n : Nat) (m : Machine σ) :
    guardedRun s n m = .ok (run s n m) := by
  unfold guardedRun run
  cases hcheck : s.code.check with
  | error fault => rfl
  | ok _ => exact guardedProceed_eq hcheck n m.reset

section Short

theorem withTop_of_empty {f : Value → Machine σ → Progress σ} (h : m.stack.size = 0) :
    withTop s m f = underflow s m := by
  have hback : m.stack.back? = none := Array.back?_eq_none_iff.2 (Array.eq_empty_of_size_eq_zero h)
  rw [withTop, hback]

theorem withTop_of_pos {f : Value → Machine σ → Progress σ} (h : 0 < m.stack.size) :
    ∃ v, withTop s m f = f v { m with stack := m.stack.pop } := by
  obtain ⟨below, v, hstack⟩ := Array.eq_push_of_size_ne_zero (Nat.ne_of_gt h)
  refine ⟨v, ?_⟩
  rw [withTop, hstack, Array.back?_push]

theorem call_of_short {count : Nat} {wantsValue : Bool} (h : m.stack.size < count + 1) :
    ∃ stack, call s m count wantsValue = underflow s { m with stack } := by
  rcases Nat.eq_zero_or_pos m.stack.size with hzero | hpos
  · exact ⟨m.stack, withTop_of_empty hzero⟩
  · obtain ⟨v, hv⟩ := withTop_of_pos hpos
    refine ⟨m.stack.pop, ?_⟩
    have hshort : m.stack.pop.size < count := by
      rw [Array.size_pop]
      omega
    rw [call, hv, if_pos hshort]

/-- An instruction that needs more values than there are fails, and tells nothing but
that. -/
theorem execute_of_short (hfits : c.Fits s.code s.code.size) (h : m.stack.size < c.pops) :
    ∃ stack, execute s m c = underflow s { m with stack } := by
  have hone {f : Value → Machine σ → Progress σ} (h : m.stack.size < 1) :
      ∃ stack, withTop s m f = underflow s { m with stack } :=
    ⟨m.stack, withTop_of_empty (Nat.lt_one_iff.1 h)⟩
  have htwo {op : BinaryOp} (h : m.stack.size < 2) :
      ∃ stack, binary s m op = underflow s { m with stack } := by
    rcases Nat.eq_zero_or_pos m.stack.size with hzero | hpos
    · exact ⟨m.stack, withTop_of_empty hzero⟩
    · obtain ⟨v, hv⟩ := withTop_of_pos hpos
      refine ⟨m.stack.pop, ?_⟩
      have hshort : m.stack.pop.size = 0 := by
        rw [Array.size_pop]
        omega
      rw [binary, hv]
      exact withTop_of_empty hshort
  obtain ⟨opcode, operand⟩ := c
  cases opcode with
  | nop | pushInt | pushNumber | pushNull | pushBool | pushString | pushFunction | pushGlobal
  | goto => exact absurd h (Nat.not_lt_zero _)
  | pop => exact ⟨m.stack, if_pos h⟩
  | ifTrueGoto | defineGlobal | setGlobal | negate | not | bitNot | dup =>
    simp only [execute, unary]
    exact hone h
  | callDiscard | callReturn => exact call_of_short h
  | ret =>
    have hle : operand.val ≤ 1 := hfits
    have hlt : m.stack.size < operand.val := h
    have hval : operand.val = 1 := by omega
    obtain ⟨stack, hstack⟩ := hone (f := fun v m => m.leave (some v)) (by omega)
    exact ⟨stack, by simp only [execute, if_pos hval, hstack]⟩
  | _ => exact htwo h

end Short

/-- No code, no host and no limits bring the machine to crash. Code that does not pass its
check is refused with one internal error, before any instruction. In code that does, no
instruction refers to anything that is not there or takes more than there is, on whatever
machine it is carried out; an instruction that finds too few values on the stack ends
the run with one internal error. -/
theorem run_guarded (s : Setting σ) (m : Machine σ) :
    (∀ n, guardedRun s n m = .ok (run s n m)) ∧
    (∀ call : HostCall, call.guardedArguments = .ok call.arguments) ∧
    match s.code.check with
    | .error fault => ∀ n, run s n m =
        .ended m.reset #[.error (s.code.positionAt 0) .internalError [fault.message]]
    | .ok _ =>
      (∀ m' : Machine σ, guardedStep s m' = .ok (m'.step s)) ∧
      ∀ n m' c, run s n m = .going m' → s.code.instructions[m'.pc]? = some c →
        m'.WithinLimits s → m'.stack.size < c.pops →
        ∃ m'', ∀ k, run s (n + 1 + k) m = .ended m''
          #[.error (s.code.positionAt m'.pc) .internalError ["stack underflow"]] := by
  refine ⟨fun n => guardedRun_eq s n m, HostCall.guardedArguments_eq, ?_⟩
  cases hcheck : s.code.check with
  | error fault =>
    intro n
    rw [run, hcheck]
  | ok _ =>
    refine ⟨guardedStep_eq hcheck, ?_⟩
    intro n m' c hgo hc hlimits hshort
    have hrun (k : Nat) : run s k m = proceed s k m.reset := by rw [run, hcheck]
    obtain ⟨stack, hstack⟩ := execute_of_short (m := m'.started)
      ((Code.check_eq_ok_iff.1 hcheck).2 m'.pc c hc).1 hshort
    have hstep := hlimits.step_eq hc
    rw [hstack] at hstep
    refine ⟨{ m'.started with stack }, fun k => ?_⟩
    rw [hrun] at hgo
    rw [hrun, Nat.add_assoc, Nat.add_comm 1 k, proceed_add, hgo]
    dsimp only
    rw [proceed, hstep]
    rfl

/-- A host function that takes the whole stack away leaves an operator short of its left
operand. -/
theorem run_guarded_emptied :
    let code : Code :=
      { instructions := #[⟨.pushNull, .zero⟩, ⟨.pushString, .zero⟩, ⟨.callReturn, .zero⟩,
          ⟨.equal, .zero⟩]
        strings := #["f"]
        origins := #[default, default, default, default] }
    let s : Setting Unit := { code, hosts := ⟨[("f", fun _ _ => ⟨#[], 0, ()⟩)]⟩ }
    code.check = .ok () ∧ ∃ m, ∀ k, run s (4 + k) { host := () } =
      .ended m #[.error default .internalError ["stack underflow"]] := by
  intro code s
  have hcheck : s.code.check = .ok () := rfl
  have hguarded := (run_guarded s { host := () }).2.2
  rw [hcheck] at hguarded
  exact ⟨hcheck, hguarded.2 3 _ ⟨.equal, .zero⟩ rfl rfl ⟨rfl, by decide⟩ (by decide)⟩

end Machine

end StackScript
