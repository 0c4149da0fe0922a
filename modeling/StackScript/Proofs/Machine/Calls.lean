import StackScript.Proofs.Machine.Instructions

/-!
Variables, functions and calls beside a machine that agrees with the world. A call of
the host matches what the host answers to the arguments alone, and a call of a
function matches its body with a return behind it.
-/

namespace StackScript

variable {σ α : Type}

namespace World.Sound

variable {s : Setting σ} {start : σ} {w : World σ}

theorem put {v : Value} (h : w.Sound s start) (hv : w.Knows v) (name : String) :
    { w with globals := w.globals.put name v }.Sound s start := by
  refine ⟨h.functions, ?_, h.passed⟩
  intro other v' hfind
  rw [Globals.find?_put] at hfind
  split at hfind
  · cases hfind
    exact hv
  · exact h.globals other v' hfind

theorem grows_cons (w : World σ) (entry : UInt32) (f : Closure) :
    w.Grows { w with functions := (entry, f) :: w.functions } := by
  intro v hv entry' hentry
  obtain ⟨f', hf'⟩ := hv entry' hentry
  rw [List.lookup_cons]
  split
  · exact ⟨f, rfl⟩
  · exact ⟨f', hf'⟩

theorem cons {entry : UInt32} {f : Closure} (h : w.Sound s start) (hf : f.Laid s.code entry) :
    { w with functions := (entry, f) :: w.functions }.Sound s start := by
  have hgrows := grows_cons w entry f
  obtain ⟨passed, hpassed, hall⟩ := h.passed
  refine ⟨?_, fun name v hfind => hgrows v (h.globals name v hfind), passed, hpassed,
    fun v hv => hgrows v (hall v hv)⟩
  intro entry' f' hlookup
  rw [List.lookup_cons] at hlookup
  split at hlookup
  · next heq =>
    cases hlookup
    rw [eq_of_beq heq]
    exact hf
  · exact h.functions entry' f' hlookup

/-- The host has been passed values that are about, and so it has no others to push. -/
theorem answered {f : HostFunction σ} {name : String} {arguments : List Value}
    (h : w.Sound s start) (hhosts : s.hosts.Decent start) (hf : s.hosts.find? name = some f)
    (hknown : ∀ v ∈ arguments, w.Knows v) (calls : List (String × List Value)) :
    { w with host := (f.answer arguments w.host).state, calls := calls }.Sound s start ∧
      w.Knows ((f.answer arguments w.host).value arguments.length) := by
  obtain ⟨passed, hpassed, hall⟩ := h.passed
  have hboth (v : Value) (hv : v ∈ passed ++ arguments) : w.Knows v := by
    rcases List.mem_append.1 hv with hmem | hmem
    · exact hall v hmem
    · exact hknown v hmem
  refine ⟨⟨h.functions, h.globals, passed ++ arguments, hpassed.call hf arguments, hboth⟩, ?_⟩
  intro entry hentry
  unfold HostReply.value at hentry
  split at hentry
  · cases hlast : ((f.answer arguments w.host).values arguments.length).getLast? with
    | none =>
      rw [hlast] at hentry
      cases hentry
    | some v =>
      rw [hlast] at hentry
      cases hentry
      have hmem := List.mem_of_getLast? hlast
      exact hboth _ (hhosts.grounded hpassed hf arguments entry hmem) entry rfl
  · cases hentry

end World.Sound

namespace Machine

/-- A value that is put on the stack only if it is wanted. -/
def keep (wantsValue : Bool) (stack : Array Value) (v : Value) : Array Value :=
  if wantsValue then stack.push v else stack

/-- The operation that calls. -/
def callOpcode (wantsValue : Bool) : Opcode := if wantsValue then .callReturn else .callDiscard

/-- The value of a call whose host has left these values where its arguments were. -/
def settledValue (reply : HostReply σ) (count : Nat) (above : Array Value) : Value :=
  (if 0 < reply.pushed ∧ count < above.size then above.back? else none).getD .null

/-- What is left of a call, whatever the host has done above the stack of the caller. -/
theorem settleReply_above {reply : HostReply σ} {below above : Array Value}
    (h : reply.stack = below ++ above) (count : Nat) (wantsValue : Bool) :
    settleReply reply below.size count wantsValue =
      keep wantsValue below (settledValue reply count above) := by
  have hresult : (if 0 < reply.pushed ∧ below.size + count < reply.stack.size then
        reply.stack.back? else none) =
      if 0 < reply.pushed ∧ count < above.size then above.back? else none := by
    rw [h, Array.size_append]
    simp only [Nat.add_lt_add_iff_left]
    by_cases hpushed : 0 < reply.pushed ∧ count < above.size
    · obtain ⟨front, v, rfl⟩ := Array.exists_push_of_size_pos (Nat.zero_lt_of_lt hpushed.2)
      rw [if_pos hpushed, if_pos hpushed, Array.append_push, Array.back?_push, Array.back?_push]
    · rw [if_neg hpushed, if_neg hpushed]
  unfold settleReply keep settledValue
  dsimp only
  rw [hresult, h, shrink_append]

/-- A host that has only pushed leaves the last value it has pushed, if it tells of any. -/
theorem settledValue_append (reply : HostReply σ) (arguments values : Array Value) :
    settledValue reply arguments.size (arguments ++ values) =
      if 0 < reply.pushed then values.back?.getD .null else .null := by
  unfold settledValue
  rw [Array.size_append]
  by_cases hpushed : 0 < reply.pushed
  · rcases Nat.eq_zero_or_pos values.size with hzero | hpos
    · obtain rfl := Array.eq_empty_of_size_eq_zero hzero
      simp
    · obtain ⟨front, v, rfl⟩ := Array.exists_push_of_size_pos hpos
      rw [if_pos hpushed, if_pos ⟨hpushed, by omega⟩, Array.append_push, Array.back?_push,
        Array.back?_push]
  · rw [if_neg hpushed, if_neg fun h => hpushed h.1]
    rfl

/-- What is left of a call is its value, where the host has only pushed. -/
theorem settleReply_append {reply : HostReply σ} {arguments : List Value}
    (h : arguments <+: reply.stack.toList) (wantsValue : Bool) (below : Array Value) :
    settleReply { reply with stack := below ++ reply.stack } below.size arguments.length
      wantsValue = keep wantsValue below (reply.value arguments.length) := by
  obtain ⟨values, hvalues⟩ := h
  have hstack : reply.stack = arguments.toArray ++ values.toArray := by
    rw [List.append_toArray, hvalues]
  have hpushed : reply.values arguments.length = values := by
    rw [HostReply.values, ← hvalues, List.drop_left]
  have hvalue := settledValue_append { reply with stack := below ++ reply.stack }
    arguments.toArray values.toArray
  rw [settleReply_above rfl, HostReply.value, hpushed, hstack]
  rw [hstack, List.size_toArray, List.back?_toArray] at hvalue
  rw [hvalue]

variable {s : Setting σ} {start : σ} {bound pc n : Nat} {m : Machine σ} {w : World σ}
  {stack : Array Value} {frames : Array Frame} {p : Position} {wantsValue : Bool}
  {name : String} {v : Value} {arguments : List Value}
  {A : α → World σ → Machine σ → Prop} {r : Direct.Result σ α}

/-- A call has been made, and its value is on the stack if it is wanted. -/
def HasCalled (s : Setting σ) (start : σ) (wantsValue : Bool) (pc : Nat) (stack : Array Value)
    (frames : Array Frame) (v : Value) (w : World σ) (m : Machine σ) : Prop :=
  m.Stands s start w pc (keep wantsValue stack v) frames ∧ w.Knows v

theorem size_append_arguments (stack : Array Value) (arguments : List Value) :
    (stack ++ arguments.toArray).size = stack.size + arguments.length := by
  simp only [Array.size_append, List.size_toArray]

theorem Stands.hostCall?_of_call {f : Value}
    (h : m.Stands s start w pc (stack.push f) frames)
    (hc : s.code.Holds pc (callOpcode wantsValue) n p) :
    hostCall? s m =
      match f with
      | .string name => some (name, (stack.extract (stack.size - n) (stack.size - n + n)).toList)
      | _ => none := by
  obtain ⟨operand, hcommand, rfl, -⟩ := hc
  obtain ⟨steps, rfl⟩ := h.machine_eq
  change s.code.instructions[(w.machine pc (stack.push f) frames steps).pc]? = _ at hcommand
  unfold hostCall?
  rw [hcommand]
  cases wantsValue <;>
    simp only [callOpcode, stack_machine, Array.back?_push, Array.pop_push, Bool.false_eq_true,
      if_false, if_true] <;>
    cases f <;> rfl

theorem Stands.hostCall?_eq
    (h : m.Stands s start w pc ((stack ++ arguments.toArray).push (.string name)) frames)
    (hc : s.code.Holds pc (callOpcode wantsValue) arguments.length p) :
    hostCall? s m = some (name, arguments) := by
  have hsize : arguments.toArray.size = arguments.length := List.size_toArray
  rw [h.hostCall?_of_call hc]
  dsimp only
  rw [size_append_arguments, Nat.add_sub_cancel, Array.extract_append_right, ← hsize,
    Array.extract_size]

@[simp] theorem globals_machine (steps : Nat) :
    (w.machine pc stack frames steps).globals = w.globals := rfl

namespace Matches

theorem variableValue (h : m.Stands s start w pc stack frames)
    (hc : s.code.HoldsText pc .pushGlobal name p) :
    Matches s bound m w (HasPushed s start (pc + 1) stack frames)
      (Direct.variableValue name p w) := by
  obtain ⟨slot, hc, hslot⟩ := hc
  unfold Direct.variableValue
  cases hfind : w.globals.find? name with
  | some v =>
    refine push h hc (by decide) (h.sound.globals name v hfind) fun operand steps hn => ?_
    simp only [execute, withName, hn, hslot, globals_machine, hfind]
    rfl
  | none =>
    refine stop stack h hc fun operand steps hn => ?_
    simp only [execute, withName, hn, hslot, globals_machine, hfind]
    simp only [fail, pc_machine, hc.positionAt_eq]

theorem define (h : m.Stands s start w pc (stack.push v) frames) (hv : w.Knows v)
    (hc : s.code.HoldsText pc .defineGlobal name p) :
    Matches s bound m w (fun _ w' m' => m'.Stands s start w' (pc + 1) stack frames)
      (Direct.define name v w) := by
  obtain ⟨slot, hc, hslot⟩ := hc
  refine (change h hc (by decide) (h.sound.put hv name) (.of_functions_eq rfl) rfl
    (fun operand steps hn => ?_) fun m' h' => .done h').weaken (Nat.le_succ bound)
  simp only [execute, withTop_machine, withName, hn, hslot]
  rfl

theorem assign (h : m.Stands s start w pc (stack.push v) frames) (hv : w.Knows v)
    (hc : s.code.HoldsText pc .setGlobal name p) :
    Matches s bound m w (fun _ w' m' => m'.Stands s start w' (pc + 1) stack frames)
      (Direct.assign name v p w) := by
  obtain ⟨slot, hc, hslot⟩ := hc
  change Matches s bound m w _ (Direct.bind (Direct.variableValue name p) _ w)
  unfold Direct.bind Direct.variableValue
  cases hfind : w.globals.find? name with
  | some old =>
    refine (change h hc (by decide) (h.sound.put hv name) (.of_functions_eq rfl) rfl
      (fun operand steps hn => ?_) fun m' h' => .done h').weaken (Nat.le_succ bound)
    simp only [execute, withTop_machine, withName, hn, hslot, globals_machine, hfind]
    rfl
  | none =>
    refine stop stack h hc fun operand steps hn => ?_
    simp only [execute, withTop_machine, withName, hn, hslot, globals_machine, hfind]
    simp only [fail, pc_machine, hc.positionAt_eq]

theorem closure {f : Closure} (h : m.Stands s start w pc stack frames)
    (hc : s.code.Holds pc .pushFunction f.scope.address p)
    (hbody : f.body.Laid s.code f.scope)
    (hret : s.code.Holds (f.body.behind f.scope).address .ret 0 p) :
    Matches s bound m w (HasPushed s start (pc + 1) stack frames) (Direct.closure f w) := by
  have hentry : (UInt32.ofNat f.scope.address).toNat = f.scope.address := by
    obtain ⟨operand, -, hn, -⟩ := hc
    have hlt : f.scope.address < operandLimit := hn ▸ operand.isLt
    exact UInt32.toNat_ofNat_of_lt (Nat.lt_trans hlt (by decide))
  have hlaid : f.Laid s.code (UInt32.ofNat f.scope.address) := ⟨hentry, hbody, p, hret⟩
  refine (change h hc (by decide) (h.sound.cons hlaid) (World.Sound.grows_cons w _ f) rfl
    (fun operand steps hn => ?_) fun m' h' => .done ⟨h', ?_⟩).weaken (Nat.le_succ bound)
  · simp only [execute, hn]
    rfl
  · intro entry heq
    cases heq
    exact ⟨f, List.lookup_cons_self⟩

/-- A return leaves the innermost call. -/
theorem leave (value : Option Value) {frame : Frame}
    (h : m.Stands s start w pc (value.elim stack stack.push) (frames.push frame))
    (hc : s.code.Holds pc .ret value.toList.length p)
    (hrest : ∀ m', m'.Stands s start w frame.returnTo
      (keep frame.wantsValue (stack.shrink frame.base) (value.getD .null)) frames →
        Matches s bound m' w A r) : Matches s bound m w A r := by
  refine (move h hc (by decide) (fun operand steps hn => ?_) hrest).weaken (Nat.le_succ bound)
  have hleave (value : Option Value) :
      (w.machine pc stack (frames.push frame) steps).leave value = .next (w.machine frame.returnTo
        (keep frame.wantsValue (stack.shrink frame.base) (value.getD .null)) frames steps) := by
    simp only [Machine.leave, World.machine, Array.back?_push, Array.pop_push]
    rfl
  cases value with
  | none => simp only [execute, hn, Option.toList_none, List.length_nil]; exact hleave none
  | some v =>
    simp only [execute, hn, Option.toList_some, List.length_singleton, Option.elim_some,
      withTop_machine]
    exact hleave (some v)

section Calls

variable {f : Value}

/-- The arguments are there. -/
theorem execute_call {operand : Operand} {steps : Nat} (hn : operand.val = arguments.length) :
    execute s (w.machine pc ((stack ++ arguments.toArray).push f) frames steps)
        ⟨callOpcode wantsValue, operand⟩ =
      Machine.call s (w.machine pc ((stack ++ arguments.toArray).push f) frames steps)
        arguments.length wantsValue := by
  rw [← hn]
  cases wantsValue <;> rfl

theorem no_underflow (stack : Array Value) (arguments : List Value) :
    ¬stack.size + arguments.length < arguments.length := by
  omega

theorem callHost (hhosts : s.hosts.Decent start)
    (h : m.Stands s start w pc ((stack ++ arguments.toArray).push (.string name)) frames)
    (hc : s.code.Holds pc (callOpcode wantsValue) arguments.length p)
    (hknown : ∀ v ∈ arguments, w.Knows v) :
    Matches s bound m w (HasCalled s start wantsValue (pc + 1) stack frames)
      (Direct.callHost s.hosts name arguments p w) := by
  unfold Direct.callHost
  cases hf : s.hosts.find? name with
  | some f =>
    have hreply := hhosts.looks hf stack arguments w.host
    have hsettle := settleReply_append (hhosts.pushes hf arguments w.host) wantsValue stack
    have hsound := h.sound.answered hhosts hf hknown (w.calls ++ [(name, arguments)])
    refine (next h hc hsound.1 (.of_functions_eq rfl) ?_ (fun operand steps hn => ?_)
      fun m' h' => .done ⟨h', hsound.2⟩).weaken (Nat.le_succ bound)
    · rw [h.hostCall?_eq hc]
      rfl
    · simp only [execute_call hn, Machine.call, withTop_machine, stack_machine,
        size_append_arguments, if_neg (no_underflow stack arguments), Nat.add_sub_cancel, hf]
      rw [show (w.machine pc (stack ++ arguments.toArray) frames steps).host = w.host from rfl,
        hreply, hsettle]
      rfl
  | none =>
    refine stop (stack ++ arguments.toArray) h hc fun operand steps hn => ?_
    simp only [execute_call hn, Machine.call, withTop_machine, stack_machine,
      size_append_arguments, if_neg (no_underflow stack arguments), hf]
    simp only [fail, pc_machine, hc.positionAt_eq]

/-- A function is called with its arguments left on the stack, and its return takes them
away. -/
theorem callFunction {again : Again σ} (hagain : ∀ t : Stmt, t.Follows s start bound (again · t))
    {entry : UInt32}
    (h : m.Stands s start w pc ((stack ++ arguments.toArray).push (.function entry)) frames)
    (hc : s.code.Holds pc (callOpcode wantsValue) arguments.length p)
    (hf : w.Knows (.function entry)) :
    Matches s (bound + 1) m w (HasCalled s start wantsValue (pc + 1) stack frames)
      (Direct.callFunction again entry p w) := by
  obtain ⟨f, hlookup⟩ := hf entry rfl
  have hlaid := h.sound.functions entry f hlookup
  have hexec (operand : Operand) (steps : Nat) (hn : operand.val = arguments.length) :
      execute s (w.machine pc ((stack ++ arguments.toArray).push (.function entry)) frames steps)
        ⟨callOpcode wantsValue, operand⟩ =
      if s.limits.callDepth ≤ frames.size then
        fail s (w.machine pc (stack ++ arguments.toArray) frames steps) .stackOverflow
          ("call depth limit of " ++ toString s.limits.callDepth ++ " exceeded")
      else .next (w.machine f.scope.address (stack ++ arguments.toArray)
        (frames.push ⟨pc + 1, stack.size, wantsValue⟩) steps) := by
    simp only [execute_call hn, Machine.call, withTop_machine, stack_machine,
      size_append_arguments, if_neg (no_underflow stack arguments), Nat.add_sub_cancel,
      hlaid.entry_eq]
    rfl
  have hdepth : ¬s.limits.callDepth ≤ frames.size := by
    intro hle
    obtain ⟨operand, steps, hn, hstep⟩ := h.step_eq hc
    rw [hexec operand steps hn, if_pos hle] at hstep
    exact absurd (h.unlimited.not_fails hstep) (by decide)
  simp only [if_neg hdepth] at hexec
  unfold Direct.callFunction
  rw [hlookup]
  refine next h hc h.sound (.refl w) ?_ hexec fun m₁ h₁ => ?_
  · rw [h.hostCall?_of_call hc, Option.toList_none, List.append_nil]
  · refine .bind (hagain f.body f.scope m₁ w _ _ hlaid.body h₁) fun flow w₂ m₂ hgrows h₂ => ?_
    have harrive {value : Option Value} {m' : Machine σ} (hvalue : ∀ v ∈ value.toList, w₂.Knows v)
        (h' : m'.Stands s start w₂ (pc + 1)
          (keep wantsValue ((stack ++ arguments.toArray).shrink stack.size) (value.getD .null))
          frames) :
        HasCalled s start wantsValue (pc + 1) stack frames (value.getD .null) w₂ m' := by
      rw [shrink_append] at h'
      refine ⟨h', ?_⟩
      cases value with
      | none => exact .of_ne (by simp)
      | some v => exact hvalue v (List.mem_singleton_self v)
    cases flow with
    | next =>
      obtain ⟨q, hret⟩ := hlaid.ret
      exact leave none h₂ hret fun m' h' => .done (harrive (by simp) h')
    | returned value =>
      obtain ⟨pc', q, hret, h₂, hvalue⟩ := h₂
      exact leave value h₂ hret fun m' h' => .done (harrive hvalue h')

theorem call {again : Again σ} (hhosts : s.hosts.Decent start)
    (hagain : ∀ t : Stmt, t.Follows s start bound (again · t))
    (h : m.Stands s start w pc ((stack ++ arguments.toArray).push f) frames)
    (hc : s.code.Holds pc (callOpcode wantsValue) arguments.length p)
    (hknown : ∀ v ∈ arguments, w.Knows v) (hf : w.Knows f) :
    Matches s (bound + 1) m w (HasCalled s start wantsValue (pc + 1) stack frames)
      (Direct.call s.hosts again f arguments p w) := by
  have hother (hstring : ∀ name, f ≠ .string name) (hfunction : ∀ entry, f ≠ .function entry) :
      Matches s (bound + 1) m w (HasCalled s start wantsValue (pc + 1) stack frames)
        (Direct.fail p .unknownFunction f.text w) := by
    refine stop (stack ++ arguments.toArray) h hc fun operand steps hn => ?_
    simp only [execute_call hn, Machine.call, withTop_machine, stack_machine,
      size_append_arguments, if_neg (no_underflow stack arguments)]
    simp only [fail, pc_machine, hc.positionAt_eq]
  cases f with
  | string name => exact callHost hhosts h hc hknown
  | function entry => exact callFunction hagain h hc hf
  | null | bool b | int i | number x => exact hother (by simp) (by simp)

end Calls

end Matches

end Machine

end StackScript
