import StackScript.Proofs.Code.Flow
import StackScript.Proofs.Machine.Effects

/-!
The calls of script functions that a run has open, as one sees them from the outside:
where the run was when the frames grew, where it went and what stack it had then. On
code that keeps to its bodies and to the scan, a run stands in the body that the
innermost open call has entered, and its stack has grown since by as much as the scan has
grown. One step preserves this, whether it goes on, opens a call or closes one.
-/

namespace StackScript

variable {σ : Type}

/-- A call of a script function: the address of the instruction that made it, the address
that it entered and the stack at that moment, with the arguments on top. -/
structure Activation where
  caller : Nat
  entry : Nat
  stack : Array Value

/-- The stack at which the innermost open call has entered its function. -/
def baseStack : List Activation → Array Value
  | [] => #[]
  | a :: _ => a.stack

/-- The height of the scan where the innermost open call has entered its function. -/
def Code.entryHeight (code : Code) : List Activation → Nat
  | [] => 0
  | a :: _ => code.heightAt a.entry

namespace Machine

/-- The calls that are open behind a step, the innermost first. -/
def track (m m' : Machine σ) (as : List Activation) : List Activation :=
  if m.frames.size < m'.frames.size then ⟨m.pc, m'.pc, m'.stack⟩ :: as
  else if m'.frames.size < m.frames.size then as.tail
  else as

section Track

variable {m m' : Machine σ} {as : List Activation}

theorem track_same (h : m'.frames = m.frames) : track m m' as = as := by
  rw [track, h, if_neg (Nat.lt_irrefl _), if_neg (Nat.lt_irrefl _)]

theorem track_push {frame : Frame} (h : m'.frames = m.frames.push frame) :
    track m m' as = ⟨m.pc, m'.pc, m'.stack⟩ :: as := by
  have hlt : m.frames.size < m'.frames.size := by
    rw [h, Array.size_push]
    exact Nat.lt_succ_self _
  rw [track, if_pos hlt]

theorem size_pop_lt {frame : Frame} (h : m.frames.back? = some frame) :
    m.frames.pop.size < m.frames.size := by
  obtain ⟨frames, hframes⟩ := Array.back?_eq_some_iff.1 h
  rw [hframes, Array.pop_push, Array.size_push]
  exact Nat.lt_succ_self _

theorem track_pop {frame : Frame} (h : m'.frames = m.frames.pop)
    (hframe : m.frames.back? = some frame) : track m m' as = as.tail := by
  have hlt := size_pop_lt hframe
  rw [← h] at hlt
  rw [track, if_neg (Nat.lt_asymm hlt), if_pos hlt]

end Track

/-- The calls that are open after so many steps, or when the run ended. -/
def activations (s : Setting σ) : Nat → Machine σ → List Activation
  | 0, _ => []
  | n + 1, m =>
    match proceed s n m with
    | .going m' =>
      match m'.step s with
      | .next m'' => track m' m'' (activations s n m)
      | _ => activations s n m
    | .ended _ _ => activations s n m

section Steps

variable {s : Setting σ} {m m' m'' : Machine σ} {n : Nat}

/-- A run that has gone one step further has gone so far before. -/
theorem exists_step_of_proceed (h : proceed s (n + 1) m = .going m'') :
    ∃ m', proceed s n m = .going m' ∧ m'.step s = .next m'' := by
  rw [proceed_add] at h
  cases hgo : proceed s n m with
  | ended m' report =>
    rw [hgo] at h
    cases h
  | going m' =>
    rw [hgo] at h
    dsimp only at h
    rw [proceed] at h
    cases hstep : m'.step s with
    | next m₁ =>
      rw [hstep] at h
      cases h
      exact ⟨m', rfl, hstep⟩
    | finished m₁ | failed m₁ report =>
      rw [hstep] at h
      cases h

theorem activations_succ (hgo : proceed s n m = .going m') (hstep : m'.step s = .next m'') :
    activations s (n + 1) m = track m' m'' (activations s n m) := by
  rw [activations, hgo]
  dsimp only
  rw [hstep]

theorem calls_succ (hgo : proceed s n m = .going m') (hstep : m'.step s = .next m'') :
    calls s (n + 1) m = calls s n m ++ (hostCall? s m').toList := by
  rw [calls_add hgo 1, calls, hstep]
  dsimp only
  rw [calls, List.append_nil]

end Steps

end Machine

section Places

variable {code : Code} {bodies : List Body} {as : List Activation} {pc pc' : Nat}
  {kept values : Array Value} {stack : Array Value} {c : Command}

/-- The address lies in the body that the innermost open call has entered, and in none of
those that are written in it. -/
def IsIn (bodies : List Body) : List Activation → Nat → Prop
  | [], pc => IsWithin bodies none pc
  | a :: _, pc => ∃ b, b.first = a.entry ∧ IsWithin bodies (some b) pc

theorem IsIn.isWithin (h : IsIn bodies as pc) (code : Code) :
    ∃ o, IsWithin bodies o pc ∧ code.baseHeight o = code.entryHeight as := by
  cases as with
  | nil => exact ⟨none, h, rfl⟩
  | cons a as =>
    obtain ⟨b, hfirst, hwithin⟩ := h
    refine ⟨some b, hwithin, ?_⟩
    rw [Code.baseHeight, Code.entryHeight, hfirst]

theorem IsIn.of_same (h : IsIn bodies as pc) (hsame : SameBodies bodies pc pc') :
    IsIn bodies as pc' := by
  cases as with
  | nil => exact IsWithin.of_same (o := none) h hsame
  | cons a as =>
    obtain ⟨b, hfirst, hwithin⟩ := h
    exact ⟨b, hfirst, hwithin.of_same hsame⟩

/-- Where an instruction goes on, the bodies are the same and the height is that of the
scan. -/
theorem Command.Keeps.leads (h : c.Keeps code bodies pc) (hlead : c.LeadsTo pc pc')
    (hc : code.instructions[pc]? = some c) (hcheck : code.checkStack = .ok ()) :
    SameBodies bodies pc pc' ∧ code.heightAt pc' = code.heightAt pc - c.pops + c.pushes := by
  have hnext := Code.heightAt_succ hcheck hc
  obtain ⟨opcode, operand⟩ := c
  cases opcode with
  | goto =>
    obtain rfl : pc' = operand.val := hlead
    obtain ⟨hsame, hheight⟩ := h
    exact ⟨hsame, hheight⟩
  | ifTrueGoto =>
    obtain ⟨hsame, hsame', hheight⟩ := h
    rcases hlead with rfl | rfl
    · exact ⟨hsame', hheight.trans hnext⟩
    · exact ⟨hsame, hnext⟩
  | ret => exact hlead.elim
  | pushFunction =>
    obtain rfl : pc' = pc + 1 := hlead
    exact ⟨h.1, hnext⟩
  | _ =>
    obtain rfl : pc' = pc + 1 := hlead
    exact ⟨h, hnext⟩

/-- A stack with so much on top of that of the innermost open call as the scan says. -/
structure Located (code : Code) (bodies : List Body) (as : List Activation) (pc : Nat)
    (stack : Array Value) : Prop where
  isIn : IsIn bodies as pc
  height : ∃ values, stack = baseStack as ++ values ∧
    code.entryHeight as + values.size = code.heightAt pc

theorem Located.height_eq (h : Located code bodies as pc stack) :
    (stack.size : Int) - (baseStack as).size = code.heightAt pc - code.entryHeight as := by
  obtain ⟨values, rfl, hheight⟩ := h.height
  rw [Array.size_append]
  omega

/-- The values that an instruction takes are on top of what its body has put there. -/
theorem Located.split (h : Located code bodies as pc stack) (hflows : code.Flows bodies)
    (hc : code.instructions[pc]? = some c) : ∃ kept top, stack = baseStack as ++ kept ++ top ∧
      top.size = c.pops ∧ code.entryHeight as + kept.size + c.pops = code.heightAt pc := by
  obtain ⟨o, ho, hbase⟩ := h.isIn.isWithin code
  obtain ⟨values, hstack, hheight⟩ := h.height
  have hle := hflows.pops_le ho hc
  have hvalues : values.extract 0 (values.size - c.pops) ++
      values.extract (values.size - c.pops) values.size = values := by
    rw [Array.extract_append_extract, Nat.zero_min, Nat.max_eq_right (Nat.sub_le _ _),
      Array.extract_size]
  refine ⟨values.extract 0 (values.size - c.pops),
    values.extract (values.size - c.pops) values.size, ?_, ?_, ?_⟩
  · rw [Array.append_assoc, hvalues, hstack]
  · rw [Array.size_extract]
    omega
  · rw [Array.size_extract]
    omega

/-- An instruction goes on where the scan says, with the values that it leaves. -/
theorem Located.lead (hisIn : IsIn bodies as pc)
    (hheight : code.entryHeight as + kept.size + c.pops = code.heightAt pc)
    (hflows : code.Flows bodies) (hc : code.instructions[pc]? = some c)
    (hlead : c.LeadsTo pc pc') (hsize : values.size = c.pushes) :
    Located code bodies as pc' (baseStack as ++ kept ++ values) := by
  obtain ⟨hsame, hheight'⟩ := (hflows.keepsAt hc).leads hlead hc hflows.checkStack
  refine ⟨hisIn.of_same hsame, kept ++ values, Array.append_assoc, ?_⟩
  rw [Array.size_append]
  omega

end Places

/-- The frames of a machine belong to the open calls. Each call was made where the body of
the call around it stood as the scan says, and will go on behind that instruction. -/
inductive Opened (code : Code) (bodies : List Body) : List Frame → List Activation → Prop
  | nil : Opened code bodies [] []
  | cons {frame : Frame} {frames : List Frame} {a : Activation} {as : List Activation}
      {kept arguments : Array Value} {operand : Operand}
      (hcall : code.instructions[a.caller]? =
        some ⟨Machine.callOpcode frame.wantsValue, operand⟩)
      (hreturn : frame.returnTo = a.caller + 1) (hisIn : IsIn bodies as a.caller)
      (hstack : a.stack = baseStack as ++ kept ++ arguments)
      (hbase : frame.base = (baseStack as ++ kept).size) (hsize : arguments.size = operand.val)
      (hheight : code.entryHeight as + kept.size + (operand.val + 1) = code.heightAt a.caller)
      (hrest : Opened code bodies frames as) : Opened code bodies (frame :: frames) (a :: as)

theorem Opened.returnTo_eq {code : Code} {bodies : List Body} {frames : List Frame}
    {as : List Activation} (h : Opened code bodies frames as) :
    frames.map Frame.returnTo = as.map fun a => a.caller + 1 := by
  induction h with
  | nil => rfl
  | cons _ hreturn _ _ _ _ _ _ ih => rw [List.map_cons, List.map_cons, hreturn, ih]

theorem Opened.calls {code : Code} {bodies : List Body} {frames : List Frame}
    {as : List Activation} (h : Opened code bodies frames as) :
    ∀ a ∈ as, ∃ wantsValue operand,
      code.instructions[a.caller]? = some ⟨Machine.callOpcode wantsValue, operand⟩ := by
  induction h with
  | nil => simp
  | cons hcall _ _ _ _ _ _ _ ih => exact List.forall_mem_cons.2 ⟨⟨_, _, hcall⟩, ih⟩

/-- A function value that enters one of the bodies. -/
def Value.IsOwn (bodies : List Body) (v : Value) : Prop :=
  ∀ entry, v = .function entry → ∃ b ∈ bodies, b.first = entry.toNat

theorem Value.ordinary_isOwn (bodies : List Body) : Machine.Ordinary (Value.IsOwn bodies) :=
  fun _ h entry heq => absurd heq (h entry)

namespace Machine

theorem callOpcode_pops {wantsValue : Bool} {operand : Operand} :
    Command.pops ⟨callOpcode wantsValue, operand⟩ = operand.val + 1 := by
  cases wantsValue <;> rfl

theorem callOpcode_leadsTo {wantsValue : Bool} {operand : Operand} (pc : Nat) :
    Command.LeadsTo ⟨callOpcode wantsValue, operand⟩ pc (pc + 1) := by
  cases wantsValue <;> rfl

theorem keep_eq_append (wantsValue : Bool) (below : Array Value) (operand : Operand)
    (v : Value) : ∃ values, keep wantsValue below v = below ++ values ∧
      values.size = Command.pushes ⟨callOpcode wantsValue, operand⟩ ∧ ∀ v' ∈ values, v' = v := by
  cases wantsValue with
  | true => exact ⟨#[v], Array.push_eq_append, rfl, fun v' hv' => Array.mem_singleton.1 hv'⟩
  | false => exact ⟨#[], Array.append_empty.symm, rfl, fun v' hv' => by simp at hv'⟩

theorem reverse_frames {m : Machine σ} {frame : Frame} (h : m.frames.back? = some frame) :
    m.frames.toList.reverse = frame :: m.frames.pop.toList.reverse := by
  obtain ⟨frames, hframes⟩ := Array.back?_eq_some_iff.1 h
  rw [hframes]
  simp only [Array.toList_push, Array.pop_push, List.reverse_append, List.reverse_singleton,
    List.singleton_append]

/-- What is true of a machine at any time in a run: its frames are those of the open
calls, it stands in the body of the innermost of them as high as the scan says, and all
function values that there are enter bodies. -/
structure Tracked (s : Setting σ) (bodies : List Body) (m : Machine σ)
    (as : List Activation) : Prop where
  opened : Opened s.code bodies m.frames.toList.reverse as
  located : Located s.code bodies as m.pc m.stack
  knows : Knows (Value.IsOwn bodies) m.stack m.globals

namespace Tracked

variable {s : Setting σ} {bodies : List Body} {m m' : Machine σ} {as : List Activation}
  {c : Command} {kept top : Array Value} {report : Array Diagnostic}

/-- Within the limits a step has the effect of the instruction. -/
theorem step_effect (h : Tracked s bodies m as) (hflows : s.code.Flows bodies)
    (hc : s.code.instructions[m.pc]? = some c) (hlimits : m.WithinLimits s)
    (hhost : HostPushes (Value.IsOwn bodies) s m) :
    ∃ kept top, m.stack = baseStack as ++ kept ++ top ∧
      s.code.entryHeight as + kept.size + c.pops = s.code.heightAt m.pc ∧
      Effect (Value.IsOwn bodies) m c (baseStack as ++ kept) (m.step s) := by
  obtain ⟨kept, top, hstack, htop, hheight⟩ := h.located.split hflows hc
  have hfunction (hopcode : c.opcode = .pushFunction) :
      Value.IsOwn bodies (.function (UInt32.ofNat c.operand.val)) := by
    intro entry heq
    cases heq
    have hkeeps := hflows.keepsAt hc
    unfold Command.Keeps at hkeeps
    rw [hopcode] at hkeeps
    obtain ⟨-, b, hb, hfirst⟩ := hkeeps
    have hlt : c.operand.val < 2 ^ 32 := Nat.lt_trans c.operand.isLt (by decide)
    exact ⟨b, hb, by rw [hfirst, UInt32.toNat_ofNat_of_lt' hlt]⟩
  have heffect := execute_effect (m := m.started) hc (hflows.fits hc) hstack htop h.knows
    (Value.ordinary_isOwn bodies) hfunction hhost
  rw [← hlimits.step_eq hc] at heffect
  exact ⟨kept, top, hstack, hheight, heffect.of_started⟩

/-- A step comes to the end of the code, passes a limit or has the effect of an
instruction. -/
theorem step_cases (h : Tracked s bodies m as) (hflows : s.code.Flows bodies)
    (hhost : m.WithinLimits s → HostPushes (Value.IsOwn bodies) s m) :
    (s.code.instructions[m.pc]? = none ∧ m.step s = .finished m) ∨
    (∃ fault argument, fault.isLimit = true ∧ m.step s = fail s m.started fault argument) ∨
    ∃ c kept top, s.code.instructions[m.pc]? = some c ∧ m.stack = baseStack as ++ kept ++ top ∧
      s.code.entryHeight as + kept.size + c.pops = s.code.heightAt m.pc ∧
      Effect (Value.IsOwn bodies) m c (baseStack as ++ kept) (m.step s) := by
  cases hc : s.code.instructions[m.pc]? with
  | none =>
    refine .inl ⟨rfl, ?_⟩
    rw [step, hc]
  | some c =>
    by_cases hlimits : m.WithinLimits s
    · obtain ⟨kept, top, heffect⟩ := h.step_effect hflows hc hlimits (hhost hlimits)
      exact .inr (.inr ⟨c, kept, top, rfl, heffect⟩)
    · exact .inr (.inl (step_of_limit hlimits hc))

/-- What a return does: the machine goes on behind the call, and the stack is what was
below the arguments, and a value if the caller wants one. -/
theorem closes {frame : Frame} {value : Value} (h : Tracked s bodies m as)
    (hflows : s.code.Flows bodies) (hstack : m.stack = baseStack as ++ kept ++ top)
    (hframe : m.frames.back? = some frame) (hvalue : value.IsOwn bodies)
    (hpc : m'.pc = frame.returnTo) (hframes : m'.frames = m.frames.pop)
    (hkeep : m'.stack =
      keep frame.wantsValue ((baseStack as ++ kept).shrink frame.base) value)
    (hglobals : m'.globals = m.globals) :
    ∃ a rest below arguments operand, as = a :: rest ∧
      s.code.instructions[a.caller]? = some ⟨callOpcode frame.wantsValue, operand⟩ ∧
      a.stack = below ++ arguments ∧ arguments.size = operand.val ∧ m'.pc = a.caller + 1 ∧
      m'.stack = keep frame.wantsValue below value ∧ Tracked s bodies m' rest := by
  have hopened := h.opened
  rw [reverse_frames hframe] at hopened
  -- The innermost frame belongs to the innermost call, and what that call has kept below its
  -- arguments is what the frame cuts the stack back to.
  cases hopened with
  | @cons _ _ a rest kept' arguments operand hcall hreturn hisIn hentered hbase hsize hheight
    hrest =>
    have hbelow : (baseStack (a :: rest) ++ kept).shrink frame.base = baseStack rest ++ kept' := by
      rw [baseStack, hentered, hbase, Array.append_assoc, shrink_append]
    rw [hbelow] at hkeep
    have hknows : Knows (Value.IsOwn bodies) (baseStack rest ++ kept') m.globals := by
      have htaken : m.stack = baseStack rest ++ kept' ++ (arguments ++ (kept ++ top)) := by
        rw [hstack, baseStack, hentered]
        simp only [Array.append_assoc]
      exact h.knows.lower htaken
    refine ⟨a, rest, _, arguments, operand, rfl, hcall, hentered, hsize, hpc.trans hreturn,
      hkeep, ?_⟩
    obtain ⟨values, hvalues, hpushes, hall⟩ :=
      keep_eq_append frame.wantsValue (baseStack rest ++ kept') operand value
    rw [hvalues] at hkeep
    refine ⟨?_, ?_, ?_⟩
    · rw [hframes]
      exact hrest
    · rw [hpc, hreturn, hkeep]
      exact .lead hisIn (by rw [callOpcode_pops]; exact hheight) hflows hcall
        (callOpcode_leadsTo _) hpushes
    · rw [hkeep, hglobals]
      refine ⟨fun v hv => ?_, hknows.globals⟩
      rcases Array.mem_append.1 hv with hv | hv
      · exact hknows.stack v hv
      · rw [hall v hv]
        exact hvalue

/-- A machine goes on to one that keeps to the code as well. -/
theorem next (h : Tracked s bodies m as) (hflows : s.code.Flows bodies)
    (hc : s.code.instructions[m.pc]? = some c) (hstack : m.stack = baseStack as ++ kept ++ top)
    (hheight : s.code.entryHeight as + kept.size + c.pops = s.code.heightAt m.pc)
    (heffect : Effect (Value.IsOwn bodies) m c (baseStack as ++ kept) (.next m')) :
    Tracked s bodies m' (track m m' as) := by
  cases heffect with
  | goesOn hpc hframes hstack' hsize hknows =>
    rw [track_same hframes]
    refine ⟨?_, ?_, hknows⟩
    · rw [hframes]
      exact h.opened
    · rw [hstack']
      exact .lead h.located.isIn hheight hflows hc hpc hsize
  | @opens _ arguments entry wantsValue hopcode hsize htaken hpc hframes hstack' hglobals =>
    obtain ⟨opcode, operand⟩ := c
    obtain rfl : opcode = callOpcode wantsValue := hopcode
    rw [callOpcode_pops] at hheight
    have hmem : Value.function entry ∈ m.stack := by
      rw [htaken]
      exact Array.mem_push_self
    -- What is called has come from the stack, so it enters a body.
    obtain ⟨b, hb, hfirst⟩ := h.knows.stack _ hmem entry rfl
    rw [track_push hframes]
    refine ⟨?_, ?_, ?_⟩
    · rw [hframes, Array.toList_push, List.reverse_append, List.reverse_singleton,
        List.singleton_append]
      exact .cons hc rfl h.located.isIn hstack' rfl hsize hheight h.opened
    · refine ⟨⟨b, hfirst.trans hpc.symm, ?_⟩, #[], Array.append_empty.symm, rfl⟩
      rw [hpc, ← hfirst]
      exact hflows.isWithin_first hb
    · rw [Array.push_eq_append] at htaken
      rw [hstack', hglobals]
      exact h.knows.lower htaken
  | closes hret hframe hvalue hpc hframes hkeep hglobals =>
    rw [track_pop hframes hframe]
    obtain ⟨a, rest, below, arguments, operand, rfl, -, -, -, -, -, htracked⟩ :=
      h.closes hflows hstack hframe hvalue hpc hframes hkeep hglobals
    exact htracked

theorem effect_of_next (h : Tracked s bodies m as) (hflows : s.code.Flows bodies)
    (hhost : m.WithinLimits s → HostPushes (Value.IsOwn bodies) s m)
    (hstep : m.step s = .next m') :
    ∃ c kept top, s.code.instructions[m.pc]? = some c ∧ m.stack = baseStack as ++ kept ++ top ∧
      s.code.entryHeight as + kept.size + c.pops = s.code.heightAt m.pc ∧
      Effect (Value.IsOwn bodies) m c (baseStack as ++ kept) (.next m') := by
  rcases h.step_cases hflows hhost with ⟨-, hend⟩ | ⟨fault, argument, -, hlimit⟩ | heffect
  · rw [hstep] at hend
    cases hend
  · rw [hstep] at hlimit
    cases hlimit
  · rwa [hstep] at heffect

theorem step_next (h : Tracked s bodies m as) (hflows : s.code.Flows bodies)
    (hhost : m.WithinLimits s → HostPushes (Value.IsOwn bodies) s m)
    (hstep : m.step s = .next m') : Tracked s bodies m' (track m m' as) := by
  obtain ⟨c, kept, top, hc, hstack, hheight, heffect⟩ := h.effect_of_next hflows hhost hstep
  exact h.next hflows hc hstack hheight heffect

/-- A call that has returned leaves what was below its arguments, and a value if the caller
wants one. -/
theorem step_returns (h : Tracked s bodies m as) (hflows : s.code.Flows bodies)
    (hhost : m.WithinLimits s → HostPushes (Value.IsOwn bodies) s m)
    (hstep : m.step s = .next m') (hless : m'.frames.size < m.frames.size) :
    ∃ a rest below arguments operand wantsValue value, as = a :: rest ∧
      s.code.instructions[a.caller]? = some ⟨callOpcode wantsValue, operand⟩ ∧
      a.stack = below ++ arguments ∧ arguments.size = operand.val ∧ m'.pc = a.caller + 1 ∧
      m'.stack = keep wantsValue below value := by
  obtain ⟨c, kept, top, hc, hstack, hheight, heffect⟩ := h.effect_of_next hflows hhost hstep
  cases heffect with
  | goesOn _ hframes => exact absurd hless (by rw [hframes]; exact Nat.lt_irrefl _)
  | opens _ _ _ _ hframes =>
    rw [hframes, Array.size_push] at hless
    exact absurd hless (Nat.not_lt.2 (Nat.le_succ _))
  | @closes _ frame value hret hframe hvalue hpc hframes hkeep hglobals =>
    obtain ⟨a, rest, below, arguments, operand, has, hcall, hentered, hsize, hpc', hkeep', -⟩ :=
      h.closes hflows hstack hframe hvalue hpc hframes hkeep hglobals
    exact ⟨a, rest, below, arguments, operand, frame.wantsValue, value, has, hcall, hentered,
      hsize, hpc', hkeep'⟩

/-- No call is open where no frame is. -/
theorem eq_nil (h : Tracked s bodies m as) (hframes : m.frames = #[]) : as = [] := by
  have hopened := h.opened
  rw [hframes] at hopened
  cases hopened
  rfl

theorem exists_cons (h : Tracked s bodies m as) (hframes : m.frames ≠ #[]) :
    ∃ a rest, as = a :: rest := by
  cases as with
  | nil =>
    have hopened := h.opened.returnTo_eq
    exact absurd (by simpa using hopened) hframes
  | cons a rest => exact ⟨a, rest, rfl⟩

/-- The machine is in a body exactly if a call is open. -/
theorem isIn_body_iff (h : Tracked s bodies m as) :
    (∃ b ∈ bodies, b.Holds m.pc) ↔ m.frames ≠ #[] := by
  have hisIn := h.located.isIn
  constructor
  · rintro ⟨b, hb, hholds⟩ hframes
    rw [h.eq_nil hframes] at hisIn
    exact hisIn b hb hholds
  · intro hframes
    obtain ⟨a, rest, rfl⟩ := h.exists_cons hframes
    obtain ⟨b, -, hb, hholds, -⟩ := hisIn
    exact ⟨b, hb, hholds⟩

/-- A return closes the innermost call, and ends the run if none is open. -/
theorem step_ret {operand : Operand} (h : Tracked s bodies m as) (hflows : s.code.Flows bodies)
    (hc : s.code.instructions[m.pc]? = some ⟨.ret, operand⟩) (hlimits : m.WithinLimits s)
    (hhost : HostPushes (Value.IsOwn bodies) s m) :
    if m.frames = #[] then ∃ m', m.step s = .finished m'
    else ∃ m', m.step s = .next m' ∧ m'.frames = m.frames.pop := by
  obtain ⟨kept, top, -, -, heffect⟩ := h.step_effect hflows hc hlimits hhost
  generalize m.step s = progress at heffect ⊢
  cases heffect with
  | goesOn hpc => exact hpc.elim
  | @opens _ _ _ wantsValue hopcode => cases wantsValue <;> cases hopcode
  | @closes m' _ _ _ hframe _ _ hframes =>
    rw [if_neg fun hempty => by simp [hempty] at hframe]
    exact ⟨m', rfl, hframes⟩
  | @finishes m' _ hframe =>
    rw [if_pos (Array.back?_eq_none_iff.1 hframe)]
    exact ⟨m', rfl⟩
  | fails hret => exact absurd rfl hret

/-- A return inside a body never ends the run, and one outside of all bodies does. -/
theorem step_return {operand : Operand} {inside : Bool} (h : Tracked s bodies m as)
    (hflows : s.code.Flows bodies)
    (hhost : m.WithinLimits s → HostPushes (Value.IsOwn bodies) s m)
    (hc : s.code.instructions[m.pc]? = some ⟨.ret, operand⟩)
    (hinside : inside = true ↔ ∃ b ∈ bodies, b.Holds m.pc) :
    if inside then
      (∀ m', m.step s ≠ .finished m') ∧
        (m.WithinLimits s → ∃ m', m.step s = .next m' ∧ m'.frames = m.frames.pop)
    else m.WithinLimits s → ∃ m', m.step s = .finished m' := by
  have hstep (hlimits : m.WithinLimits s) := h.step_ret hflows hc hlimits (hhost hlimits)
  rw [h.isIn_body_iff] at hinside
  cases inside with
  | false =>
    have hframes : m.frames = #[] :=
      Classical.not_not.1 fun hne => Bool.false_ne_true (hinside.2 hne)
    simp only [if_pos hframes] at hstep
    exact hstep
  | true =>
    simp only [if_neg (hinside.1 rfl)] at hstep
    refine ⟨fun m' hfinished => ?_, hstep⟩
    by_cases hlimits : m.WithinLimits s
    · obtain ⟨m₁, hnext, -⟩ := hstep hlimits
      rw [hfinished] at hnext
      cases hnext
    · obtain ⟨fault, argument, -, hfail⟩ := step_of_limit hlimits hc
      rw [hfinished] at hfail
      cases hfail

/-- A run that reaches its end has used up all its values. -/
theorem step_finished (h : Tracked s bodies m as) (hflows : s.code.Flows bodies)
    (hhost : m.WithinLimits s → HostPushes (Value.IsOwn bodies) s m)
    (hstep : m.step s = .finished m') : m'.stack = #[] ∧ m'.globals = m.globals := by
  rcases h.step_cases hflows hhost with ⟨hnone, hend⟩ | ⟨fault, argument, -, hlimit⟩ |
    ⟨c, kept, top, hc, hstack, hheight, heffect⟩
  · rw [hstep] at hend
    cases hend
    refine ⟨?_, rfl⟩
    have hsize : s.code.size ≤ m.pc := Array.getElem?_eq_none_iff.1 hnone
    obtain ⟨hisIn, values, hstack, hheight⟩ := h.located
    cases as with
    | nil =>
      rw [Code.entryHeight, hflows.heightAt_of_size_le hsize, Nat.zero_add] at hheight
      rw [hstack, Array.eq_empty_of_size_eq_zero hheight]
      rfl
    | cons a as =>
      obtain ⟨b, -, hwithin⟩ := hisIn
      exact absurd (hflows.lt_size hwithin) (Nat.not_lt.2 hsize)
  · rw [hstep] at hlimit
    cases hlimit
  · rw [hstep] at heffect
    cases heffect with
    | finishes hret hframe hstack' hglobals =>
      refine ⟨?_, hglobals⟩
      obtain rfl := h.eq_nil (Array.back?_eq_none_iff.1 hframe)
      have hkeeps := hflows.keepsAt hc
      obtain ⟨opcode, operand⟩ := c
      obtain rfl : opcode = .ret := hret
      -- Outside of all calls a return stands as high as it has values to return.
      have hret : s.code.heightAt m.pc = 0 + operand.val := hkeeps none h.located.isIn
      have hpops : Command.pops ⟨.ret, operand⟩ = operand.val := rfl
      have hkept : kept.size = 0 := by omega
      rw [hstack', Array.eq_empty_of_size_eq_zero hkept]
      rfl

theorem step_failed (h : Tracked s bodies m as) (hflows : s.code.Flows bodies)
    (hhost : m.WithinLimits s → HostPushes (Value.IsOwn bodies) s m)
    (hstep : m.step s = .failed m' report) :
    report ≠ #[] ∧ (∀ d ∈ report, d.fault ≠ .internalError) ∧ m'.globals = m.globals := by
  rcases h.step_cases hflows hhost with ⟨-, hend⟩ | ⟨fault, argument, hlimit, hfail⟩ |
    ⟨c, kept, top, hc, hstack, hheight, heffect⟩
  · rw [hstep] at hend
    cases hend
  · rw [hstep] at hfail
    cases hfail
    refine ⟨by simp, fun d hd => ?_, rfl⟩
    obtain rfl := Array.mem_singleton.1 hd
    rintro rfl
    cases hlimit
  · rw [hstep] at heffect
    cases heffect with
    | fails hret hglobals htold hquiet => exact ⟨htold, hquiet, hglobals⟩

end Tracked

end Machine

end StackScript
