import StackScript.Proofs.Code.Returns
import StackScript.Proofs.Machine.Activations

/-!
Runs of compiled scripts with hosts that only push, and push no function that the run has
not passed to one of them. At any time in such a run the machine stands in the body of the
function that the innermost open call has entered, and the height of its stack is what the
scan of the code has foreseen. So no run tells an internal error, every call that returns
leaves its value and nothing else, and it is where a return is written that decides
whether it ends a call or the run.
-/

namespace StackScript

variable {σ : Type}

namespace Machine

/-- In a run of the machine the hosts only push, and push no function that none of them
has been passed, now or before in the same run. -/
def HostsOnlyPush (s : Setting σ) (m : Machine σ) : Prop :=
  ∀ n m' call reply, run s n m = .going m' → m'.WithinLimits s →
    hostReply? s m' = some (call, reply) →
    ∃ values, reply.stack = call.stack ++ values ∧ ∀ entry, .function entry ∈ values →
      .function entry ∈ call.arguments ∨
        ∃ earlier ∈ calls s n m.reset, .function entry ∈ earlier.2

/-- A machine that no run has changed but those with hosts that only push. What the hosts
share may have been changed between the runs. -/
inductive Idle (s : Setting σ) : Machine σ → Prop
  | fresh (host : σ) : Idle s { host }
  | again {m m' : Machine σ} {n : Nat} {report : Array Diagnostic} (host : σ) (hidle : Idle s m)
      (hhosts : HostsOnlyPush s m) (hend : run s n m = .ended m' report) :
      Idle s { m' with host }

section Hosts

variable {s : Setting σ} {m : Machine σ} {call : HostCall} {reply : HostReply σ} {v : Value}

/-- What the host replies to is a call of the host, and the reply is that of the function. -/
theorem hostCall?_of_hostReply? (h : hostReply? s m = some (call, reply)) :
    ∃ name, hostCall? s m = some (name, call.arguments) ∧
      ∃ f, s.hosts.find? name = some f ∧ reply = f call m.host := by
  unfold hostReply? at h
  unfold hostCall?
  cases hc : s.code.instructions[m.pc]? with
  | none =>
    rw [hc] at h
    cases h
  | some c =>
    obtain ⟨opcode, n⟩ := c
    rw [hc] at h
    cases hback : m.stack.back? with
    | none =>
      rw [hback] at h
      cases opcode <;> cases h
    | some callee =>
      rw [hback] at h
      cases callee with
      | string name =>
        cases opcode with
        | callDiscard | callReturn =>
          obtain ⟨f, hf, hcall⟩ := Option.map_eq_some_iff.1 h
          cases hcall
          exact ⟨name, rfl, f, hf, rfl⟩
        | _ => cases h
      | _ => cases opcode <;> cases h

theorem mem_stack_of_hostCall? {name : String} {arguments : List Value}
    (h : hostCall? s m = some (name, arguments)) (hv : v ∈ arguments) : v ∈ m.stack := by
  have hextract {first last : Nat} (hv : v ∈ (m.stack.pop.extract first last).toList) :
      v ∈ m.stack := by
    obtain ⟨k, hk, rfl⟩ := Array.mem_extract_iff_getElem.1 (Array.mem_toList_iff.1 hv)
    rw [Array.getElem_pop]
    exact Array.getElem_mem _
  unfold hostCall? at h
  split at h
  · split at h
    · cases h
      exact hextract hv
    · cases h
  · split at h
    · cases h
      exact hextract hv
    · cases h
  · cases h

end Hosts

/-- The variables hold no function but those of the bodies. -/
def OwnGlobals (bodies : List Body) (globals : Globals) : Prop :=
  ∀ name v, globals.find? name = some v → Value.IsOwn bodies v

section Reached

variable {s : Setting σ} {bodies : List Body} {m m' m'' : Machine σ} {n : Nat}
  {report : Array Diagnostic}

theorem HostsOnlyPush.hostPushes {as : List Activation} (h : HostsOnlyPush s m)
    (hrun : run s n m = .going m') (htracked : Tracked s bodies m' as)
    (hcalls : ∀ call ∈ calls s n m.reset, ∀ v ∈ call.2, Value.IsOwn bodies v)
    (hlimits : m'.WithinLimits s) : HostPushes (Value.IsOwn bodies) s m' := by
  intro call reply hreply
  obtain ⟨values, hstack, hpassed⟩ := h n m' call reply hrun hlimits hreply
  refine ⟨values, hstack, fun v hv entry heq => ?_⟩
  subst heq
  rcases hpassed entry hv with hmem | ⟨earlier, hearlier, hmem⟩
  · obtain ⟨name, hcall, -⟩ := hostCall?_of_hostReply? hreply
    exact htracked.knows.stack _ (mem_stack_of_hostCall? hcall hmem) entry rfl
  · exact hcalls earlier hearlier _ hmem entry rfl

/-- At any time in a run the machine keeps to the code, and the hosts have been passed no
functions but those of the bodies. -/
theorem tracked_of_run (hflows : s.code.Flows bodies) (hglobals : OwnGlobals bodies m.globals)
    (hhosts : HostsOnlyPush s m) (hrun : run s n m = .going m') :
    Tracked s bodies m' (activations s n m.reset) ∧
      ∀ call ∈ calls s n m.reset, ∀ v ∈ call.2, Value.IsOwn bodies v := by
  rw [run_of_check hflows.check] at hrun
  induction n generalizing m' with
  | zero =>
    cases hrun
    refine ⟨⟨.nil, ⟨hflows.isWithin_zero, #[], rfl, rfl⟩, by simp [reset], hglobals⟩, ?_⟩
    simp [calls]
  | succ n ih =>
    obtain ⟨m₁, hgo, hstep⟩ := exists_step_of_proceed hrun
    obtain ⟨htracked, hcalls⟩ := ih hgo
    have hhost := hhosts.hostPushes ((run_of_check hflows.check n m).trans hgo) htracked hcalls
    refine ⟨?_, ?_⟩
    · rw [activations_succ hgo hstep]
      exact htracked.step_next hflows hhost hstep
    · rw [calls_succ hgo hstep]
      intro call hcall v hv
      rcases List.mem_append.1 hcall with hearlier | hnow
      · exact hcalls call hearlier v hv
      · exact htracked.knows.stack v (mem_stack_of_hostCall? (Option.mem_toList.1 hnow) hv)

/-- What the hosts do to a machine that a run has reached. -/
theorem hostPushes_of_run (hflows : s.code.Flows bodies) (hglobals : OwnGlobals bodies m.globals)
    (hhosts : HostsOnlyPush s m) (hrun : run s n m = .going m') (hlimits : m'.WithinLimits s) :
    HostPushes (Value.IsOwn bodies) s m' := by
  obtain ⟨htracked, hcalls⟩ := tracked_of_run hflows hglobals hhosts hrun
  exact hhosts.hostPushes hrun htracked hcalls hlimits

/-- A run that has ended has told nothing and used up its values, or told of a failure that
is no internal error. -/
theorem ended_of_run (hflows : s.code.Flows bodies) (hglobals : OwnGlobals bodies m.globals)
    (hhosts : HostsOnlyPush s m) (hrun : run s n m = .ended m'' report) :
    (report = #[] ∧ m''.stack = #[] ∨
      report ≠ #[] ∧ ∀ d ∈ report, d.fault ≠ .internalError) ∧
        OwnGlobals bodies m''.globals := by
  rw [run_of_check hflows.check] at hrun
  obtain ⟨k, m', hgo, hlast⟩ := exists_last_step hrun
  rw [← run_of_check hflows.check] at hgo
  obtain ⟨htracked, -⟩ := tracked_of_run hflows hglobals hhosts hgo
  have hhost := hostPushes_of_run hflows hglobals hhosts hgo
  rcases hlast with ⟨hstep, rfl⟩ | hstep
  · obtain ⟨hstack, hsame⟩ := htracked.step_finished hflows hhost hstep
    refine ⟨.inl ⟨rfl, hstack⟩, ?_⟩
    rw [hsame]
    exact htracked.knows.globals
  · obtain ⟨htold, hquiet, hsame⟩ := htracked.step_failed hflows hhost hstep
    refine ⟨.inr ⟨htold, hquiet⟩, ?_⟩
    rw [hsame]
    exact htracked.knows.globals

/-- However often the code has been run, the variables hold no other functions. -/
theorem Idle.ownGlobals (h : Idle s m) (hflows : s.code.Flows bodies) :
    OwnGlobals bodies m.globals := by
  induction h with
  | fresh host =>
    intro name v hv
    cases hv
  | again host _ hhosts hend ih => exact (ended_of_run hflows ih hhosts hend).2

end Reached

/-- In a run of the machine the scan foresees the stack: since the innermost open call has
entered its function, the stack has grown by as much as the scan has. -/
structure Balanced (s : Setting σ) (m : Machine σ) : Prop where
  height : ∀ n m', run s n m = .going m' →
    (m'.stack.size : Int) - (baseStack (activations s n m.reset)).size =
      s.code.heightAt m'.pc - s.code.entryHeight (activations s n m.reset)
  quiet : ∀ n, ∀ d ∈ (run s n m).report, d.fault ≠ .internalError
  /-- A call that returns leaves what was below its arguments, and a value if the caller
  wants one. -/
  returns : ∀ n m' m'', run s n m = .going m' → m'.step s = .next m'' →
    m''.frames.size < m'.frames.size →
    ∃ a rest below arguments operand wantsValue value, activations s n m.reset = a :: rest ∧
      s.code.instructions[a.caller]? = some ⟨callOpcode wantsValue, operand⟩ ∧
      a.stack = below ++ arguments ∧ arguments.size = operand.val ∧ m''.pc = a.caller + 1 ∧
      m''.stack = keep wantsValue below value
  spent : ∀ n m', run s n m = .ended m' #[] → m'.stack = #[]

/-- In a run of the machine control stays in the body of the function that the innermost
open call has entered. -/
structure Confined (script : Script) (s : Setting σ) (m : Machine σ) : Prop where
  outside : ∀ n m', run s n m = .going m' → m'.frames = #[] →
    ∀ b ∈ script.bodies, ¬b.Holds m'.pc
  inside : ∀ n m', run s n m = .going m' → m'.frames ≠ #[] →
    m'.pc < s.code.size ∧ ∃ a rest b, activations s n m.reset = a :: rest ∧
      b ∈ script.bodies ∧ b.first = a.entry ∧ b.Holds m'.pc ∧
      ∀ b' ∈ script.bodies, b'.Inside b → ¬b'.Holds m'.pc
  /-- Each frame goes back behind the instruction that made the call. -/
  frames : ∀ n m', run s n m = .going m' →
    m'.frames.toList.reverse.map Frame.returnTo =
        (activations s n m.reset).map (fun a => a.caller + 1) ∧
      ∀ a ∈ activations s n m.reset, ∃ wantsValue operand,
        s.code.instructions[a.caller]? = some ⟨callOpcode wantsValue, operand⟩
  /-- A return that is written inside a function never ends the run, and one that is
  written outside always does. -/
  returns : ∀ n m', run s n m = .going m' → ∀ r ∈ script.returns, r.address = m'.pc →
    if r.inside then
      (∀ m'', m'.step s ≠ .finished m'') ∧
        (m'.WithinLimits s → ∃ m'', m'.step s = .next m'' ∧ m''.frames = m'.frames.pop)
    else m'.WithinLimits s → ∃ m'', m'.step s = .finished m''

end Machine

theorem HostCall.mem_arguments {call : HostCall} {i : Nat} {v : Value}
    (h : call.argument? i = some v) : v ∈ call.arguments := by
  unfold argument? at h
  split at h
  next hlt =>
    obtain ⟨hsize, rfl⟩ := Array.getElem?_eq_some_iff.1 h
    refine Array.mem_toList_iff.2 (Array.mem_extract_iff_getElem.2 ⟨i, ?_, rfl⟩)
    omega
  · cases h

/-- A host with one function, which gives its first argument back. -/
def Hosts.echo : Hosts Unit where
  functions := [("echo", fun call _ =>
    ⟨call.stack ++ (call.argument? 0).toList.toArray, 1, ()⟩)]

theorem Hosts.echo_onlyPushes (code : Code) (limits : Limits) (m : Machine Unit) :
    m.HostsOnlyPush ⟨code, .echo, limits⟩ := by
  intro n m' call reply _ _ hreply
  obtain ⟨name, -, f, hf, rfl⟩ := Machine.hostCall?_of_hostReply? hreply
  have hecho : f = fun call _ => ⟨call.stack ++ (call.argument? 0).toList.toArray, 1, ()⟩ := by
    unfold Hosts.echo find? at hf
    rw [List.lookup_cons] at hf
    split at hf
    · exact (Option.some.inj hf).symm
    · cases hf
  subst hecho
  refine ⟨_, rfl, fun entry hentry => .inl (HostCall.mem_arguments (i := 0) ?_)⟩
  exact Option.mem_toList.1 (List.mem_toArray.1 hentry)

namespace Script

variable {s : Setting σ} {m : Machine σ} {file text : String} {script : Script}

/-- The scan of a compiled script foresees the stack of every run, and so no run tells an
internal error, every call leaves one value or none, and a run that tells nothing ends with
nothing on the stack. -/
theorem run_balanced (hread : (Script.read file text).result = some script)
    (hclean : script.compile.faults = #[]) (hcode : s.code = script.compile.code)
    (hidle : m.Idle s) (hhosts : m.HostsOnlyPush s) : m.Balanced s := by
  have hflows : s.code.Flows script.bodies := by
    rw [hcode]
    exact script.flows hread hclean
  have hglobals := hidle.ownGlobals hflows
  refine ⟨fun n m' hrun => ?_, fun n d hd => ?_, fun n m' m'' hrun hstep hless => ?_,
    fun n m' hrun => ?_⟩
  · exact (Machine.tracked_of_run hflows hglobals hhosts hrun).1.located.height_eq
  · cases hrun : Machine.run s n m with
    | going m' =>
      rw [hrun] at hd
      simp [Run.report] at hd
    | ended m' report =>
      rw [hrun] at hd
      rcases (Machine.ended_of_run hflows hglobals hhosts hrun).1 with ⟨rfl, -⟩ | ⟨-, hquiet⟩
      · simp [Run.report] at hd
      · exact hquiet d hd
  · have htracked := (Machine.tracked_of_run hflows hglobals hhosts hrun).1
    exact htracked.step_returns hflows (Machine.hostPushes_of_run hflows hglobals hhosts hrun)
      hstep hless
  · rcases (Machine.ended_of_run hflows hglobals hhosts hrun).1 with ⟨-, hspent⟩ | ⟨htold, -⟩
    · exact hspent
    · exact absurd rfl htold

/-- The call in the condition is open with the function that it returns on the stack, then
it has left that, and in the end there is nothing on the stack. -/
theorem run_balanced_echoed : ∃ script,
    (Script.read "" "var f = echo(fun() { return fun() return;; }); if (f()) f()();").result =
      some script ∧
    let s : Setting Unit := ⟨script.compile.code, .echo, {}⟩
    let globals : Globals := ⟨[("f", .function 1)]⟩
    (script.compile.faults = #[] ∧
      Machine.run s 9 { host := () } =
        .going ⟨5, #[.function 2], #[⟨13, 0, true⟩], globals, 9, ()⟩ ∧
      Machine.run s 10 { host := () } = .going ⟨13, #[.function 2], #[], globals, 10, ()⟩ ∧
      Machine.run s 20 { host := () } = .ended ⟨18, #[], #[], globals, 19, ()⟩ #[]) ∧
    Machine.Balanced s { host := () } := by
  refine exists_of_reads (by decide +kernel) fun script hread hruns => ?_
  exact run_balanced hread hruns.1 rfl (.fresh ()) (Hosts.echo_onlyPushes _ _ _)

/-- A run of a compiled script is outside all functions as long as no call is open, and
otherwise in the function that the innermost call has entered, up to its return. -/
theorem run_confined (hread : (Script.read file text).result = some script)
    (hclean : script.compile.faults = #[]) (hcode : s.code = script.compile.code)
    (hidle : m.Idle s) (hhosts : m.HostsOnlyPush s) : m.Confined script s := by
  have hflows : s.code.Flows script.bodies := by
    rw [hcode]
    exact script.flows hread hclean
  have hglobals := hidle.ownGlobals hflows
  have htracked {n : Nat} {m' : Machine σ} (hrun : Machine.run s n m = .going m') :=
    (Machine.tracked_of_run hflows hglobals hhosts hrun).1
  refine ⟨fun n m' hrun hframes => ?_, fun n m' hrun hframes => ?_, fun n m' hrun => ?_,
    fun n m' hrun r hr haddress => ?_⟩
  · have hisIn := (htracked hrun).located.isIn
    rwa [(htracked hrun).eq_nil hframes] at hisIn
  · obtain ⟨a, rest, has⟩ := (htracked hrun).exists_cons hframes
    have hisIn := (htracked hrun).located.isIn
    rw [has] at hisIn
    obtain ⟨b, hfirst, hwithin⟩ := hisIn
    obtain ⟨hb, hholds, hinner⟩ := id hwithin
    refine ⟨hflows.lt_size hwithin, a, rest, b, has, hb, hfirst, hholds, ?_⟩
    intro b' hb' hinside hholds'
    exact absurd (hinner b' hb' hholds') (Nat.not_le.2 hinside.1)
  · exact ⟨(htracked hrun).opened.returnTo_eq, (htracked hrun).opened.calls⟩
  · obtain ⟨⟨operand, hret⟩, hinside⟩ := returns_lie hread hclean r hr
    rw [← hcode, haddress] at hret
    rw [haddress] at hinside
    exact (htracked hrun).step_return hflows
      (Machine.hostPushes_of_run hflows hglobals hhosts hrun) hret hinside

/-- The return inside the function leaves the open call, the one outside ends the run. -/
theorem run_confined_echoed : ∃ script,
    (Script.read ""
      "var a = 1; while (a) a = echo(fun() { if (a) return null; })(); return;").result =
        some script ∧
    let s : Setting Unit := ⟨script.compile.code, .echo, {}⟩
    let globals (a : Value) : Globals := ⟨[("a", a)]⟩
    (script.compile.faults = #[] ∧ script.bodies = [⟨6, 11⟩] ∧
      script.returns = [⟨10, true⟩, ⟨18, false⟩] ∧
      Machine.run s 14 { host := () } =
        .going ⟨10, #[.null], #[⟨16, 0, true⟩], globals (.int 1), 14, ()⟩ ∧
      Machine.run s 15 { host := () } = .going ⟨16, #[.null], #[], globals (.int 1), 15, ()⟩ ∧
      Machine.run s 20 { host := () } = .going ⟨18, #[], #[], globals .null, 20, ()⟩ ∧
      Machine.run s 21 { host := () } = .ended ⟨18, #[], #[], globals .null, 21, ()⟩ #[]) ∧
    Machine.Confined script s { host := () } := by
  refine exists_of_reads (by decide +kernel) fun script hread hruns => ?_
  exact run_confined hread hruns.1 rfl (.fresh ()) (Hosts.echo_onlyPushes _ _ _)

end Script

end StackScript
