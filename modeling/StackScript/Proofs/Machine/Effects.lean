import StackScript.Proofs.Code.Heights
import StackScript.Proofs.Machine.Calls

/-!
What one instruction can do, where the stack is high enough for it and the host does
nothing to the stack but push. It takes the values that it needs from the top of the
stack; what lies below stays. Then it goes on with as many values as it leaves, opens or
closes a call, ends the run or fails, and no failure is an internal error.
-/

namespace StackScript

variable {σ : Type}

/-- Where an instruction that opens and closes no call goes on. -/
def Command.LeadsTo (c : Command) (pc pc' : Nat) : Prop :=
  match c.opcode with
  | .goto => pc' = c.operand.val
  | .ifTrueGoto => pc' = c.operand.val ∨ pc' = pc + 1
  | .ret => False
  | _ => pc' = pc + 1

theorem Command.LeadsTo.ne_ret {c : Command} {pc pc' : Nat} (h : c.LeadsTo pc pc') :
    c.opcode ≠ .ret := by
  intro hret
  unfold Command.LeadsTo at h
  rwa [hret] at h

namespace Machine

/-- The call that the next instruction makes of the host, and what the host answers. -/
def hostReply? (s : Setting σ) (m : Machine σ) : Option (HostCall × HostReply σ) :=
  match s.code.instructions[m.pc]? with
  | some ⟨.callDiscard, n⟩ | some ⟨.callReturn, n⟩ =>
    match m.stack.back? with
    | some (.string name) =>
      (s.hosts.find? name).map fun f =>
        let call := ⟨m.stack.pop, m.stack.pop.size - n.val, n.val⟩
        (call, f call m.host)
    | _ => none
  | _ => none

/-- The values on the stack and in the variables all have a property. -/
structure Knows (K : Value → Prop) (stack : Array Value) (globals : Globals) : Prop where
  stack : ∀ v ∈ stack, K v
  globals : ∀ name v, globals.find? name = some v → K v

/-- What an instruction can do with the values on top of `below`. All values that come up
have the property `K` if those that there are have it. -/
inductive Effect (K : Value → Prop) (m : Machine σ) (c : Command) (below : Array Value) :
    Progress σ → Prop
  | goesOn {m' : Machine σ} {values : Array Value} (hpc : c.LeadsTo m.pc m'.pc)
      (hframes : m'.frames = m.frames) (hstack : m'.stack = below ++ values)
      (hsize : values.size = c.pushes) (hknows : Knows K m'.stack m'.globals) :
      Effect K m c below (.next m')
  | opens {m' : Machine σ} {arguments : Array Value} {entry : UInt32} {wantsValue : Bool}
      (hopcode : c.opcode = callOpcode wantsValue) (hsize : arguments.size = c.operand.val)
      (htaken : m.stack = (below ++ arguments).push (.function entry))
      (hpc : m'.pc = entry.toNat)
      (hframes : m'.frames = m.frames.push ⟨m.pc + 1, below.size, wantsValue⟩)
      (hstack : m'.stack = below ++ arguments) (hglobals : m'.globals = m.globals) :
      Effect K m c below (.next m')
  | closes {m' : Machine σ} {frame : Frame} {value : Value} (hret : c.opcode = .ret)
      (hframe : m.frames.back? = some frame) (hvalue : K value) (hpc : m'.pc = frame.returnTo)
      (hframes : m'.frames = m.frames.pop)
      (hstack : m'.stack = keep frame.wantsValue (below.shrink frame.base) value)
      (hglobals : m'.globals = m.globals) : Effect K m c below (.next m')
  | finishes {m' : Machine σ} (hret : c.opcode = .ret) (hframe : m.frames.back? = none)
      (hstack : m'.stack = below) (hglobals : m'.globals = m.globals) :
      Effect K m c below (.finished m')
  | fails {m' : Machine σ} {report : Array Diagnostic} (hret : c.opcode ≠ .ret)
      (hglobals : m'.globals = m.globals) (htold : report ≠ #[])
      (hquiet : ∀ d ∈ report, d.fault ≠ .internalError) : Effect K m c below (.failed m' report)

variable {s : Setting σ} {m : Machine σ} {c : Command} {K : Value → Prop}
  {below : Array Value} {a b v : Value}

/-- The stack behind a call of a host that has only pushed. -/
theorem settleReply_eq_keep {reply : HostReply σ} {arguments values : Array Value}
    (h : reply.stack = below ++ arguments ++ values) (wantsValue : Bool) :
    ∃ v, (v = .null ∨ v ∈ values) ∧
      settleReply reply below.size arguments.size wantsValue = keep wantsValue below v := by
  rw [Array.append_assoc] at h
  refine ⟨_, ?_, settleReply_above h arguments.size wantsValue⟩
  rw [settledValue_append]
  split
  · rcases Nat.eq_zero_or_pos values.size with hzero | hpos
    · obtain rfl := Array.eq_empty_of_size_eq_zero hzero
      exact .inl rfl
    · obtain ⟨front, v, rfl⟩ := Array.exists_push_of_size_pos hpos
      rw [Array.back?_push]
      exact .inr Array.mem_push_self
  · exact .inl rfl

namespace Knows

theorem lower {stack : Array Value} {globals : Globals} {top : Array Value}
    (h : Knows K stack globals) (hstack : stack = below ++ top) : Knows K below globals :=
  ⟨fun v hv => h.stack v (hstack ▸ Array.mem_append_left top hv), h.globals⟩

theorem push {globals : Globals} (h : Knows K below globals) (hv : K v) :
    Knows K (below.push v) globals := by
  refine ⟨fun v' hv' => ?_, h.globals⟩
  rcases Array.mem_push.1 hv' with hmem | rfl
  · exact h.stack v' hmem
  · exact hv

theorem put {globals : Globals} (h : Knows K below globals) (hv : K v) (name : String) :
    Knows K below (globals.put name v) := by
  refine ⟨h.stack, fun other v' hv' => ?_⟩
  rw [Globals.find?_put] at hv'
  split at hv'
  · cases hv'
    exact hv
  · exact h.globals other v' hv'

end Knows

namespace Effect

variable {pc' : Nat} {globals : Globals} {host : σ}

/-- An instruction that leaves no value. -/
theorem drops (hknows : Knows K below globals) (hpc : c.LeadsTo m.pc pc')
    (hpushes : c.pushes = 0) :
    Effect K m c below (.next { m with pc := pc', stack := below, globals, host }) :=
  .goesOn hpc rfl Array.append_empty.symm hpushes.symm hknows

/-- An instruction that leaves a value. -/
theorem pushes (hknows : Knows K below globals) (hv : K v) (hpc : c.LeadsTo m.pc pc')
    (hpushes : c.pushes = 1) :
    Effect K m c below (.next { m with pc := pc', stack := below.push v, globals, host }) :=
  .goesOn hpc rfl Array.push_eq_append hpushes.symm (hknows.push hv)

/-- That the instruction has been counted changes nothing. -/
theorem of_started {p : Progress σ} (h : Effect K m.started c below p) :
    Effect K m c below p := by
  cases h with
  | goesOn hpc hframes hstack hsize hknows => exact .goesOn hpc hframes hstack hsize hknows
  | opens hopcode hsize htaken hpc hframes hstack hglobals =>
    exact .opens hopcode hsize htaken hpc hframes hstack hglobals
  | closes hret hframe hvalue hpc hframes hstack hglobals =>
    exact .closes hret hframe hvalue hpc hframes hstack hglobals
  | finishes hret hframe hstack hglobals => exact .finishes hret hframe hstack hglobals
  | fails hret hglobals htold hquiet => exact .fails hret hglobals htold hquiet

theorem fail {fault : Fault} {m' : Machine σ} {argument : String} (hret : c.opcode ≠ .ret)
    (hglobals : m'.globals = m.globals) (h : fault ≠ .internalError) :
    Effect K m c below (fail s m' fault argument) := by
  refine .fails hret hglobals (by simp) fun d hd => ?_
  obtain rfl := Array.mem_singleton.1 hd
  exact h

end Effect

/-- Values that are no functions have the property. -/
def Ordinary (K : Value → Prop) : Prop := ∀ v : Value, (∀ entry, v ≠ .function entry) → K v

theorem unaryReport_ne_empty (op : UnaryOp) (fault : OperandFault) (p : Position)
    (operand : Position × Value) : op.report fault p operand ≠ #[] := by
  simp [UnaryOp.report]

theorem binaryReport_ne_empty (op : BinaryOp) (fault : OperandFault) (p : Position)
    (left right : Position × Value) : op.report fault p left right ≠ #[] := by
  cases fault <;> simp [BinaryOp.report]

theorem unaryReport_quiet (op : UnaryOp) (fault : OperandFault) (p : Position)
    (operand : Position × Value) : ∀ d ∈ op.report fault p operand, d.fault ≠ .internalError := by
  intro d hd
  simp only [UnaryOp.report, List.mem_toArray, List.mem_cons, List.not_mem_nil, or_false] at hd
  rcases hd with rfl | rfl
  · cases fault <;> simp [Diagnostic.error, OperandFault.unaryFault]
  · simp [Value.noteAt, Diagnostic.note]

theorem binaryReport_quiet (op : BinaryOp) (fault : OperandFault) (p : Position)
    (left right : Position × Value) :
    ∀ d ∈ op.report fault p left right, d.fault ≠ .internalError := by
  intro d hd
  cases fault with
  | divisionByZero =>
    obtain rfl := Array.mem_singleton.1 hd
    simp [Diagnostic.error, OperandFault.binaryFault]
  | onNull | invalidOperands =>
    simp only [BinaryOp.report, List.mem_toArray, List.mem_cons, List.not_mem_nil, or_false] at hd
    rcases hd with rfl | rfl | rfl
    · simp [Diagnostic.error, OperandFault.binaryFault]
    · simp [Value.noteAt, Diagnostic.note]
    · simp [Value.noteAt, Diagnostic.note]

theorem unary_effect {op : UnaryOp} (hstack : m.stack = below.push v)
    (hknows : Knows K below m.globals) (hordinary : Ordinary K)
    (hpc : c.LeadsTo m.pc (m.pc + 1)) (hpushes : c.pushes = 1) :
    Effect K m c below (unary s m op) := by
  rw [unary, withTop_push _ hstack]
  cases happly : op.apply v with
  | ok result =>
    exact .pushes hknows (hordinary result (op.apply_ne_function happly)) hpc hpushes
  | error fault =>
    exact .fails hpc.ne_ret rfl (unaryReport_ne_empty op fault _ _) (unaryReport_quiet op fault _ _)

theorem binary_effect {op : BinaryOp} (hstack : m.stack = (below.push a).push b)
    (hknows : Knows K below m.globals) (hordinary : Ordinary K)
    (hpc : c.LeadsTo m.pc (m.pc + 1)) (hpushes : c.pushes = 1) :
    Effect K m c below (binary s m op) := by
  rw [binary, withTop_push _ hstack, withTop_push _ rfl]
  cases happly : op.apply a b with
  | ok result =>
    exact .pushes hknows (hordinary result (op.apply_ne_function happly)) hpc hpushes
  | error fault =>
    exact .fails hpc.ne_ret rfl (binaryReport_ne_empty op fault _ _ _)
      (binaryReport_quiet op fault _ _ _)

/-- What the host answers to the next instruction is what it was called with and values
that have the property. -/
def HostPushes (K : Value → Prop) (s : Setting σ) (m : Machine σ) : Prop :=
  ∀ call reply, hostReply? s m = some (call, reply) →
    ∃ values, reply.stack = call.stack ++ values ∧ ∀ v ∈ values, K v

theorem hostReply?_eq {arguments : Array Value} {name : String} {f : HostFunction σ}
    {wantsValue : Bool} (hc : s.code.instructions[m.pc]? = some c)
    (hopcode : c.opcode = callOpcode wantsValue) (hsize : arguments.size = c.operand.val)
    (hstack : m.stack = (below ++ arguments).push (.string name))
    (hf : s.hosts.find? name = some f) :
    hostReply? s m = some (⟨below ++ arguments, below.size, arguments.size⟩,
      f ⟨below ++ arguments, below.size, arguments.size⟩ m.host) := by
  obtain ⟨opcode, operand⟩ := c
  have hbase : (below ++ arguments).size - operand.val = below.size := by
    rw [Array.size_append, hsize, Nat.add_sub_cancel]
  unfold hostReply?
  rw [hc, hstack, Array.back?_push]
  cases wantsValue with
  | true =>
    obtain rfl : opcode = .callReturn := hopcode
    simp only [hf, Option.map_some, Array.pop_push, hbase, hsize]
  | false =>
    obtain rfl : opcode = .callDiscard := hopcode
    simp only [hf, Option.map_some, Array.pop_push, hbase, hsize]

theorem call_effect {arguments : Array Value} {callee : Value} {wantsValue : Bool}
    (hc : s.code.instructions[m.pc]? = some c) (hopcode : c.opcode = callOpcode wantsValue)
    (hsize : arguments.size = c.operand.val)
    (hstack : m.stack = (below ++ arguments).push callee) (hknows : Knows K below m.globals)
    (hordinary : Ordinary K) (hhost : HostPushes K s m) :
    Effect K m c below (call s m c.operand.val wantsValue) := by
  have hpc : c.LeadsTo m.pc (m.pc + 1) := by
    unfold Command.LeadsTo
    rw [hopcode]
    cases wantsValue <;> rfl
  have hpushes : c.pushes = if wantsValue then 1 else 0 := by
    unfold Command.pushes Command.stackEffect
    rw [hopcode]
    cases wantsValue <;> rfl
  have henough : ¬(below ++ arguments).size < c.operand.val := by
    rw [Array.size_append]
    omega
  have hbase : (below ++ arguments).size - c.operand.val = below.size := by
    rw [Array.size_append, hsize, Nat.add_sub_cancel]
  rw [call, withTop_push _ hstack]
  dsimp only
  rw [if_neg henough, hbase]
  cases callee with
  | string name =>
    dsimp only
    cases hf : s.hosts.find? name with
    | none => exact .fail hpc.ne_ret rfl (by decide)
    | some f =>
      obtain ⟨values, hreply, hvalues⟩ :=
        hhost _ _ (hostReply?_eq hc hopcode hsize hstack hf)
      obtain ⟨v, hv, hsettle⟩ := settleReply_eq_keep hreply wantsValue
      have hknown : K v := by
        rcases hv with rfl | hmem
        · exact hordinary _ (by simp)
        · exact hvalues v hmem
      dsimp only
      rw [← hsize, hsettle]
      cases wantsValue with
      | true => exact .pushes hknows hknown hpc hpushes
      | false => exact .drops hknows hpc hpushes
  | function entry =>
    dsimp only
    split
    · exact .fail hpc.ne_ret rfl (by decide)
    · exact .opens hopcode hsize hstack rfl rfl rfl rfl
  | _ => exact .fail hpc.ne_ret rfl (by decide)

theorem leave_effect {value : Option Value} (hret : c.opcode = .ret)
    (hvalue : ∀ v, value = some v → K v) (hordinary : Ordinary K) :
    Effect K m c below ({ m with stack := below }.leave value) := by
  unfold leave
  cases hframe : m.frames.back? with
  | none => exact .finishes hret hframe rfl rfl
  | some frame =>
    refine .closes hret hframe ?_ rfl rfl rfl rfl
    cases value with
    | none => exact hordinary _ (by simp)
    | some v => exact hvalue v rfl

section Taken

variable {stack top : Array Value}

/-- What a call takes: so many arguments, and what it calls on top of them. -/
theorem taken_call {n : Nat} (h : stack = below ++ top) (htop : top.size = n + 1) :
    ∃ arguments callee, stack = (below ++ arguments).push callee ∧ arguments.size = n := by
  obtain ⟨arguments, callee, rfl⟩ := Array.exists_push_of_size_pos (by omega : 0 < top.size)
  rw [Array.size_push] at htop
  exact ⟨arguments, callee, by rw [h, Array.append_push], Nat.succ.inj htop⟩

theorem taken_none (h : stack = below ++ top) (htop : top.size = 0) : stack = below := by
  rw [h, Array.eq_empty_of_size_eq_zero htop, Array.append_empty]

theorem taken_one (h : stack = below ++ top) (htop : top.size = 1) :
    ∃ v, stack = below.push v := by
  obtain ⟨none, v, hv, hsize⟩ := taken_call h htop
  exact ⟨v, by rw [hv, taken_none rfl hsize]⟩

theorem taken_two (h : stack = below ++ top) (htop : top.size = 2) :
    ∃ a b, stack = (below.push a).push b := by
  obtain ⟨one, b, hb, hsize⟩ := taken_call h htop
  obtain ⟨a, ha⟩ := taken_one rfl hsize
  exact ⟨a, b, by rw [hb, ha]⟩

end Taken

/-- What an instruction does that finds as many values as it needs. -/
theorem execute_effect {top : Array Value} (hc : s.code.instructions[m.pc]? = some c)
    (hfits : c.Fits s.code s.code.size) (hstack : m.stack = below ++ top)
    (htop : top.size = c.pops) (hknows : Knows K m.stack m.globals) (hordinary : Ordinary K)
    (hfunction : c.opcode = .pushFunction → K (.function (UInt32.ofNat c.operand.val)))
    (hhost : HostPushes K s m) : Effect K m c below (execute s m c) := by
  have hbelow := hknows.lower hstack
  have hnone (h : c.pops = 0) : m.stack = below := taken_none hstack (htop.trans h)
  have hone (h : c.pops = 1) : ∃ v, m.stack = below.push v ∧ K v := by
    obtain ⟨v, hv⟩ := taken_one hstack (htop.trans h)
    exact ⟨v, hv, hknows.stack v (hv ▸ Array.mem_push_self)⟩
  have hpushed (h : c.pops = 0) (hpc : c.LeadsTo m.pc (m.pc + 1)) (hpushes : c.pushes = 1)
      {v : Value} (hv : K v) : Effect K m c below (m.push v).goOn := by
    unfold push goOn goto
    rw [hnone h]
    exact .pushes hbelow hv hpc hpushes
  have hmoved (h : c.pops = 0) (hpushes : c.pushes = 0) {pc' : Nat} (hpc : c.LeadsTo m.pc pc') :
      Effect K m c below (m.goto pc') := by
    unfold goto
    rw [hnone h]
    exact .drops hbelow hpc hpushes
  obtain ⟨opcode, operand⟩ := c
  have hslot {α : Type} {xs : Array α} (h : operand.val < xs.size) :
      ∃ x, xs[operand.val]? = some x :=
    ⟨_, Array.getElem?_eq_getElem h⟩
  cases opcode with
  | nop => exact hmoved rfl rfl rfl
  | pushInt | pushNumber | pushString =>
    obtain ⟨x, hx⟩ := hslot hfits
    simp only [execute, hx, Option.map_some, pushConstant]
    exact hpushed rfl rfl rfl (hordinary _ (by simp))
  | pushNull | pushBool => exact hpushed rfl rfl rfl (hordinary _ (by simp))
  | pushFunction => exact hpushed rfl rfl rfl (hfunction rfl)
  | pushGlobal =>
    obtain ⟨name, hname⟩ := hslot hfits
    simp only [execute, withName, hname]
    cases hv : m.globals.find? name with
    | some v => exact hpushed rfl rfl rfl (hknows.globals name v hv)
    | none => exact .fail (by simp) rfl (by decide)
  | pop =>
    have hsize : m.stack.size = below.size + operand.val := by
      rw [hstack, Array.size_append, htop]
      rfl
    have hshrink : m.stack.shrink (m.stack.size - operand.val) = below := by
      rw [hsize, Nat.add_sub_cancel, hstack, shrink_append]
    simp only [execute, if_neg (by omega : ¬m.stack.size < operand.val), hshrink]
    exact .drops hbelow rfl rfl
  | goto => exact hmoved rfl rfl rfl
  | ifTrueGoto =>
    obtain ⟨v, hv, -⟩ := hone rfl
    simp only [execute, withTop_push _ hv]
    split
    · exact .drops hbelow (.inl rfl) rfl
    · exact .drops hbelow (.inr rfl) rfl
  | callDiscard =>
    obtain ⟨arguments, callee, hcall, hsize⟩ := taken_call hstack htop
    exact call_effect hc rfl hsize hcall hbelow hordinary hhost
  | callReturn =>
    obtain ⟨arguments, callee, hcall, hsize⟩ := taken_call hstack htop
    exact call_effect hc rfl hsize hcall hbelow hordinary hhost
  | defineGlobal =>
    obtain ⟨name, hname⟩ := hslot hfits
    obtain ⟨v, hv, hknown⟩ := hone rfl
    simp only [execute, withTop_push _ hv, withName, hname]
    exact .drops (hbelow.put hknown name) rfl rfl
  | setGlobal =>
    obtain ⟨name, hname⟩ := hslot hfits
    obtain ⟨v, hv, hknown⟩ := hone rfl
    simp only [execute, withTop_push _ hv, withName, hname]
    cases m.globals.find? name with
    | some _ => exact .drops (hbelow.put hknown name) rfl rfl
    | none => exact .fail (by simp) rfl (by decide)
  | ret =>
    have hle : operand.val ≤ 1 := hfits
    simp only [execute]
    by_cases hvalue : operand.val = 1
    · obtain ⟨v, hv, hknown⟩ := hone hvalue
      rw [if_pos hvalue, withTop_push _ hv]
      exact leave_effect rfl (fun v' hv' => Option.some.inj hv' ▸ hknown) hordinary
    · have hzero : operand.val = 0 := by omega
      have hsame : { m with stack := below } = m := by rw [← hnone hzero]
      rw [if_neg hvalue, ← hsame]
      exact leave_effect rfl (fun v hv => by cases hv) hordinary
  | dup =>
    obtain ⟨v, hv, hknown⟩ := hone rfl
    simp only [execute, withTop_push _ hv]
    have htwice : below ++ #[v, v] = (below.push v).push v := by
      rw [Array.push_eq_append, Array.push_eq_append, Array.append_assoc]
      rfl
    exact .goesOn rfl rfl htwice.symm rfl ((hbelow.push hknown).push hknown)
  | negate | not | bitNot =>
    obtain ⟨v, hv, -⟩ := hone rfl
    simp only [execute]
    exact unary_effect hv hbelow hordinary rfl rfl
  | _ =>
    obtain ⟨a, b, hab⟩ := taken_two hstack htop
    simp only [execute]
    exact binary_effect hab hbelow hordinary rfl rfl

end Machine

end StackScript
