import StackScript.Proofs.Machine.Trace

/-!
What an instruction comes to, whatever there is on the stack and whatever the host does to
it. It goes on, ends the run with nothing to tell, or fails with one error at its own place,
behind which an operator tells the operands that it has rejected. It leaves at most one
value more than it has found, and opens no call beyond the limit on their depth. Both are
read off the instructions once, here.
-/

namespace StackScript

variable {σ : Type}

/-- The machine behind a step. -/
def Progress.machine : Progress σ → Machine σ
  | next m => m
  | finished m => m
  | failed m _ => m

namespace Machine

/-- What an instruction comes to, as far as there is something to tell. -/
inductive Tells (s : Setting σ) (m : Machine σ) (c : Command) : Progress σ → Prop
  | next (m' : Machine σ) : Tells s m c (.next m')
  | finished (m' : Machine σ) (hopcode : c.opcode = .ret) (hframes : m.frames = #[])
      (hvalue : c.operand.val = 1 → m.stack ≠ #[]) : Tells s m c (.finished m')
  | failed (m' : Machine σ) (fault : Fault) (argument : String) :
      Tells s m c (.failed m' #[.error (s.code.positionAt m.pc) fault [argument]])
  | one {op : UnaryOp} {a : Value} {below : Array Value} {fault : OperandFault} (m' : Machine σ)
      (hopcode : c.opcode = op.opcode) (hstack : m.stack = below.push a)
      (happly : op.apply a = .error fault) :
      Tells s m c (.failed m' (op.report fault (s.code.positionAt m.pc)
        (s.code.operandPositionAt m.pc 0, a)))
  | pair {op : BinaryOp} {a b : Value} {below : Array Value} {fault : OperandFault}
      (m' : Machine σ) (hopcode : c.opcode = op.opcode)
      (hstack : m.stack = (below.push a).push b) (happly : op.apply a b = .error fault) :
      Tells s m c (.failed m' (op.report fault (s.code.positionAt m.pc)
        (s.code.operandPositionAt m.pc 0, a) (s.code.operandPositionAt m.pc 1, b)))

/-- The machine in the midst of an instruction that has only taken values so far. -/
structure Rests (m m' : Machine σ) : Prop where
  pc : m'.pc = m.pc
  steps : m'.steps = m.steps
  frames : m'.frames = m.frames
  stack : m'.stack.size ≤ m.stack.size

/-- The machine behind an instruction, with at most one value more and with no more calls
than may be open. -/
structure Grows (s : Setting σ) (m m' : Machine σ) : Prop where
  steps : m'.steps = m.steps
  frames : m.frames.size ≤ s.limits.callDepth → m'.frames.size ≤ s.limits.callDepth
  stack : m'.stack.size ≤ m.stack.size + 1

/-- What an instruction tells, and how far the machine grows by it. -/
structure Outcome (s : Setting σ) (m : Machine σ) (c : Command) (p : Progress σ) : Prop where
  tells : Tells s m c p
  grows : m.Grows s p.machine

variable {s : Setting σ} {m m' : Machine σ} {c : Command}

namespace Rests

theorem refl (m : Machine σ) : m.Rests m := ⟨rfl, rfl, rfl, Nat.le_refl _⟩

theorem grows (h : m.Rests m') : m.Grows s m' :=
  ⟨h.steps, fun hle => h.frames ▸ hle, Nat.le_succ_of_le h.stack⟩

theorem pop (h : m.Rests m') {stack : Array Value} {v : Value} (hstack : m'.stack = stack.push v) :
    m.Rests { m' with stack } := by
  have hle := h.stack
  rw [hstack, Array.size_push] at hle
  exact { h with stack := Nat.le_of_succ_le hle }

theorem push (h : m.Rests m') (v : Value) : m.Grows s (m'.push v) := by
  refine { h.grows with stack := ?_ }
  change (m'.stack.push v).size ≤ m.stack.size + 1
  rw [Array.size_push]
  exact Nat.succ_le_succ h.stack

end Rests

theorem size_settleReply_le (reply : HostReply σ) (base count : Nat) (wantsValue : Bool) :
    (settleReply reply base count wantsValue).size ≤ base + 1 := by
  unfold settleReply
  cases wantsValue with
  | true =>
    simp only [if_true, Array.size_push, Array.size_shrink]
    omega
  | false =>
    simp only [Bool.false_eq_true, if_false, Array.size_shrink]
    omega

namespace Outcome

theorem next (h : m.Grows s m') : Outcome s m c (.next m') := ⟨.next m', h⟩

theorem push (h : m.Rests m') (v : Value) : Outcome s m c (m'.push v).goOn :=
  .next { h.push v with }

theorem fail (h : m.Rests m') (fault : Fault) (argument : String) :
    Outcome s m c (fail s m' fault argument) := by
  refine ⟨?_, h.grows⟩
  unfold Machine.fail
  rw [h.pc]
  exact .failed m' fault argument

theorem withTop (h : m.Rests m') {f : Value → Machine σ → Progress σ}
    (hf : ∀ v stack, m'.stack = stack.push v → m.Rests { m' with stack } →
      Outcome s m c (f v { m' with stack })) : Outcome s m c (withTop s m' f) := by
  rcases Nat.eq_zero_or_pos m'.stack.size with hzero | hpos
  · have hback : m'.stack.back? = none :=
      Array.back?_eq_none_iff.2 (Array.eq_empty_of_size_eq_zero hzero)
    rw [Machine.withTop, hback]
    exact fail h _ _
  · obtain ⟨stack, v, hstack⟩ := Array.exists_push_of_size_pos hpos
    rw [withTop_push f hstack]
    exact hf v stack hstack (h.pop hstack)

theorem withName (h : m.Rests m') {f : String → Machine σ → Progress σ} (index : Nat)
    (hf : ∀ name, Outcome s m c (f name m')) : Outcome s m c (withName s m' index f) := by
  unfold Machine.withName
  cases s.code.strings[index]? with
  | none => exact fail h _ _
  | some name => exact hf name

theorem pushConstant (constant : Option Value) : Outcome s m c (pushConstant s m constant) := by
  cases constant with
  | none => exact fail (.refl m) _ _
  | some v => exact push (.refl m) v

theorem unary (op : UnaryOp) (hopcode : c.opcode = op.opcode) :
    Outcome s m c (unary s m op) := by
  refine withTop (.refl m) fun a below hstack hrests => ?_
  cases happly : op.apply a with
  | ok result => exact push hrests result
  | error fault => exact ⟨.one _ hopcode hstack happly, hrests.grows⟩

theorem binary (op : BinaryOp) (hopcode : c.opcode = op.opcode) :
    Outcome s m c (binary s m op) := by
  refine withTop (.refl m) fun b lower hlower hrests => ?_
  refine withTop hrests fun a below hstack hrests => ?_
  obtain rfl : lower = below.push a := hstack
  cases happly : op.apply a b with
  | ok result => exact push hrests result
  | error fault => exact ⟨.pair _ hopcode hlower happly, hrests.grows⟩

/-- Whatever a host does to the stack, what it has put on top of the arguments is cut
off. -/
theorem call (count : Nat) (wantsValue : Bool) : Outcome s m c (call s m count wantsValue) := by
  refine withTop (.refl m) fun callee stack _ hrests => ?_
  split
  · exact fail hrests _ _
  cases callee with
  | string name =>
    dsimp only
    cases s.hosts.find? name with
    | none => exact fail hrests _ _
    | some f =>
      refine .next { hrests.grows with stack := ?_ }
      refine Nat.le_trans (size_settleReply_le _ _ _ _) ?_
      exact Nat.succ_le_succ (Nat.le_trans (Nat.sub_le _ _) hrests.stack)
  | function entry =>
    dsimp only
    split
    · exact fail hrests _ _
    next hdepth =>
      refine .next ⟨hrests.steps, fun _ => ?_, Nat.le_succ_of_le hrests.stack⟩
      change (m.frames.push _).size ≤ s.limits.callDepth
      rw [Array.size_push]
      exact Nat.lt_of_not_le hdepth
  | _ => exact fail hrests _ _

theorem leave (h : m.Rests m') {value : Option Value} (hopcode : c.opcode = .ret)
    (hvalue : c.operand.val = 1 → m.stack ≠ #[]) : Outcome s m c (m'.leave value) := by
  unfold Machine.leave
  cases hback : m'.frames.back? with
  | none =>
    exact ⟨.finished m' hopcode (h.frames ▸ Array.back?_eq_none_iff.1 hback) hvalue, h.grows⟩
  | some frame =>
    refine .next ⟨h.steps, fun hle => ?_, ?_⟩
    · change m'.frames.pop.size ≤ s.limits.callDepth
      rw [h.frames, Array.size_pop]
      exact Nat.le_trans (Nat.sub_le _ _) hle
    · have hle := h.stack
      change Array.size (if frame.wantsValue then _ else _) ≤ m.stack.size + 1
      split
      · rw [Array.size_push, Array.size_shrink]
        omega
      · rw [Array.size_shrink]
        omega

end Outcome

/-- No instruction leaves more than one value more than it has found, and none has more than
one error to tell. -/
theorem execute_outcome (s : Setting σ) (m : Machine σ) (c : Command) :
    Outcome s m c (execute s m c) := by
  have hrests := Rests.refl m
  obtain ⟨opcode, operand⟩ := c
  cases opcode with
  | nop | goto => exact .next { hrests.grows with }
  | pushNull | pushBool | pushFunction => exact .push hrests _
  | pushInt | pushNumber | pushString => exact .pushConstant _
  | pushGlobal =>
    simp only [execute]
    refine .withName hrests _ fun name => ?_
    cases m.globals.find? name with
    | none => exact .fail hrests _ _
    | some v => exact .push hrests v
  | defineGlobal =>
    simp only [execute]
    refine .withTop hrests fun v stack _ hrests => .withName hrests _ fun name => ?_
    exact .next { hrests.grows with }
  | setGlobal =>
    simp only [execute]
    refine .withTop hrests fun v stack _ hrests => .withName hrests _ fun name => ?_
    cases hv : ({ m with stack } : Machine σ).globals.find? name with
    | none => exact .fail hrests _ _
    | some w => exact .next { hrests.grows with }
  | pop =>
    simp only [execute]
    split
    · exact .fail hrests _ _
    · refine .next { hrests.grows with stack := ?_ }
      change (m.stack.shrink _).size ≤ m.stack.size + 1
      rw [Array.size_shrink]
      omega
  | dup =>
    simp only [execute]
    refine .withTop hrests fun v stack hstack hrests => .next { hrests.grows with stack := ?_ }
    change ((stack.push v).push v).size ≤ m.stack.size + 1
    exact Nat.le_of_eq (by rw [hstack, Array.size_push])
  | ifTrueGoto =>
    simp only [execute]
    refine .withTop hrests fun v stack _ hrests => ?_
    split <;> exact .next { hrests.grows with }
  | callDiscard | callReturn => exact .call _ _
  | ret =>
    simp only [execute]
    split
    · refine .withTop hrests fun v stack hstack hrests => .leave hrests rfl fun _ => ?_
      rw [hstack]
      simp
    · rename_i hne
      exact .leave hrests rfl fun h => absurd h hne
  | negate => exact .unary .negate rfl
  | not => exact .unary .not rfl
  | bitNot => exact .unary .bitNot rfl
  | add => exact .binary .add rfl
  | sub => exact .binary .sub rfl
  | mul => exact .binary .mul rfl
  | div => exact .binary .div rfl
  | mod => exact .binary .mod rfl
  | less => exact .binary .less rfl
  | lessEqual => exact .binary .lessEqual rfl
  | greater => exact .binary .greater rfl
  | greaterEqual => exact .binary .greaterEqual rfl
  | equal => exact .binary .equal rfl
  | notEqual => exact .binary .notEqual rfl
  | bitAnd => exact .binary .bitAnd rfl
  | bitOr => exact .binary .bitOr rfl

end Machine

end StackScript
