import StackScript.Engine
import StackScript.Proofs.Machine.Agreement
import StackScript.Proofs.Machine.Alike

/-!
Hosts that write down how they are called. A recorded host does what the host does, and
keeps the names and the arguments of the calls so far beside what the host functions
share. A run with recorded hosts is the run with the hosts, and what has been written
down are the calls of that run.
-/

namespace StackScript

variable {σ : Type}

/-- What the host functions share, and the calls so far. -/
abbrev Recorded (σ : Type) := σ × List (String × List Value)

def HostFunction.recorded (f : HostFunction σ) (name : String) : HostFunction (Recorded σ) :=
  fun call shared =>
    let reply := f call shared.1
    ⟨reply.stack, reply.pushed, reply.state, shared.2 ++ [(name, call.arguments)]⟩

def Hosts.recorded (hosts : Hosts σ) : Hosts (Recorded σ) :=
  ⟨hosts.functions.map fun entry => (entry.1, entry.2.recorded entry.1)⟩

def Setting.recorded (s : Setting σ) : Setting (Recorded σ) :=
  { code := s.code, hosts := s.hosts.recorded, limits := s.limits }

def Engine.recorded (e : Engine σ) : Engine (Recorded σ) :=
  { hosts := e.hosts.recorded, limits := e.limits, host := (e.host, []) }

def Machine.recorded (m : Machine σ) (before : List (String × List Value)) :
    Machine (Recorded σ) :=
  { m with host := (m.host, before) }

/-- An instruction that is carried out may have called the host. One that ends the run has
called nothing. -/
def Progress.recorded (before after : List (String × List Value)) :
    Progress σ → Progress (Recorded σ)
  | next m => .next (m.recorded after)
  | finished m => .finished (m.recorded before)
  | failed m report => .failed (m.recorded before) report

def Run.recorded (calls : List (String × List Value)) : Run σ → Run (Recorded σ)
  | ended m report => .ended (m.recorded calls) report
  | going m => .going (m.recorded calls)

theorem Hosts.find?_recorded (hosts : Hosts σ) (name : String) :
    hosts.recorded.find? name = (hosts.find? name).map fun f => f.recorded name := by
  obtain ⟨functions⟩ := hosts
  unfold recorded find?
  dsimp only
  induction functions with
  | nil => rfl
  | cons entry rest ih =>
    rw [List.map_cons, List.lookup_cons, List.lookup_cons, ih]
    cases hname : name == entry.1 with
    | false => rfl
    | true => rw [eq_of_beq hname]; rfl

namespace Machine

variable {s : Setting σ} {before after : List (String × List Value)}

/-- Where nothing is called, nothing is written down. -/
theorem goesAlike_recorded (m : Machine σ) :
    m.GoesAlike m.globals (m.host, before) fun p p' => p' = p.recorded before before where
  failed _ _ := rfl
  next _ _ _ := rfl
  finished _ := rfl

theorem stopsAlike_recorded (m : Machine σ) :
    m.StopsAlike m.globals (m.host, before) fun p p' => p' = p.recorded before after where
  failed _ _ := rfl
  finished _ := rfl

/-- The call of the host that a call of the value on top is. -/
def topCall? (m : Machine σ) (count : Nat) : Option (String × List Value) :=
  match m.stack.back? with
  | some (.string name) =>
    some (name, HostCall.arguments ⟨m.stack.pop, m.stack.pop.size - count, count⟩)
  | _ => none

theorem call_recorded (m : Machine σ) (count : Nat) (wantsValue : Bool) :
    call s.recorded (m.recorded before) count wantsValue =
      (call s m count wantsValue).recorded before (before ++ (m.topCall? count).toList) := by
  have hcode : s.recorded.code = s.code := rfl
  refine (stopsAlike_recorded m).withTop hcode fun callee hcallee => ?_
  rw [topCall?, hcallee]
  change (if m.stack.pop.size < count then _ else _) =
    Progress.recorded _ _ (if m.stack.pop.size < count then _ else _)
  split
  · rfl
  cases callee with
  | string name =>
    have hfind : s.recorded.hosts.find? name =
        (s.hosts.find? name).map fun f => f.recorded name := s.hosts.find?_recorded name
    dsimp only
    rw [hfind]
    cases s.hosts.find? name <;> rfl
  | function entry =>
    rw [Option.toList_none, List.append_nil]
    change (if s.limits.callDepth ≤ m.frames.size then _ else _) =
      Progress.recorded _ _ (if s.limits.callDepth ≤ m.frames.size then _ else _)
    split <;> rfl
  | _ => rfl

theorem execute_recorded_of_ne (m : Machine σ) {c : Command} (hdiscard : c.opcode ≠ .callDiscard)
    (hreturn : c.opcode ≠ .callReturn) :
    execute s.recorded (m.recorded before) c = (execute s m c).recorded before before := by
  have hcode : s.recorded.code = s.code := rfl
  obtain ⟨opcode, operand⟩ := c
  cases opcode with
  | callDiscard => exact absurd rfl hdiscard
  | callReturn => exact absurd rfl hreturn
  | pushGlobal =>
    simp only [execute]
    refine (stopsAlike_recorded m).withName hcode _ fun name => ?_
    rw [globals_elsewhere]
    cases m.globals.find? name <;> rfl
  | defineGlobal =>
    simp only [execute]
    refine (stopsAlike_recorded m).withTop hcode fun v _ => ?_
    exact ((stopsAlike_recorded m).lower m.stack.pop).withName hcode _ fun name => rfl
  | setGlobal =>
    simp only [execute]
    refine (stopsAlike_recorded m).withTop hcode fun v _ => ?_
    refine ((stopsAlike_recorded m).lower m.stack.pop).withName hcode _ fun name => ?_
    rw [globals_elsewhere]
    cases m.globals.find? name <;> rfl
  | _ => exact (goesAlike_recorded m).execute hcode rfl

/-- A step with recorded hosts is the step with the hosts, and what it writes down is its
call. -/
theorem step_recorded (m : Machine σ) :
    (m.recorded before).step s.recorded =
      (m.step s).recorded before (before ++ (hostCall? s m).toList) := by
  have hcode : s.recorded.code = s.code := rfl
  have hlimits : s.recorded.limits = s.limits := rfl
  refine (stopsAlike_recorded m).step hcode hlimits (stopsAlike_recorded m.started) fun c hc => ?_
  obtain ⟨opcode, operand⟩ := c
  unfold hostCall?
  rw [hc]
  cases opcode with
  | callDiscard => exact call_recorded m.started operand.val false
  | callReturn => exact call_recorded m.started operand.val true
  | _ =>
    rw [Option.toList_none, List.append_nil]
    exact execute_recorded_of_ne m.started (by simp) (by simp)

theorem proceed_recorded (n : Nat) (m : Machine σ) :
    proceed s.recorded n (m.recorded before) =
      (proceed s n m).recorded (before ++ calls s n m) := by
  induction n generalizing m before with
  | zero => simp [proceed, calls, Run.recorded]
  | succ n ih =>
    rw [proceed, proceed, calls, step_recorded]
    cases m.step s with
    | next m' =>
      dsimp only [Progress.recorded]
      rw [ih, List.append_assoc]
    | finished m' | failed m' report =>
      dsimp only [Progress.recorded]
      rw [List.append_nil]
      rfl

/-- A run with recorded hosts is the run with the hosts, and what it writes down are its
calls. -/
theorem run_recorded (n : Nat) (m : Machine σ) :
    run s.recorded n (m.recorded before) =
      (run s n m).recorded (before ++ (behaviour s n m).calls) := by
  have hcheck : s.recorded.code.check = s.code.check := rfl
  unfold run behaviour
  rw [hcheck]
  cases s.code.check with
  | error fault =>
    dsimp only
    rw [List.append_nil]
    rfl
  | ok _ => exact proceed_recorded n m.reset

end Machine

/-- So it is with the runs of an engine. -/
theorem Engine.runCode_recorded (e : Engine σ) (patience : Nat) (code : Code) (log : Log) :
    (e.recorded.runCode patience code log).1.host =
        ((e.runCode patience code log).1.host,
          (Machine.behaviour { code, hosts := e.hosts, limits := e.limits } patience
            { host := e.host }).calls) ∧
      (e.recorded.runCode patience code log).2 = (e.runCode patience code log).2 := by
  let s : Setting σ := { code, hosts := e.hosts, limits := e.limits }
  let m : Machine σ := { host := e.host }
  have hrun : Machine.run s.recorded patience (m.recorded []) =
      (Machine.run s patience m).recorded (Machine.behaviour s patience m).calls :=
    Machine.run_recorded patience m
  change (Machine.run s.recorded patience (m.recorded [])).machine.host =
      ((Machine.run s patience m).machine.host, (Machine.behaviour s patience m).calls) ∧
    log.addAll (Machine.run s.recorded patience (m.recorded [])).report =
      log.addAll (Machine.run s patience m).report
  rw [hrun]
  cases Machine.run s patience m <;> exact ⟨rfl, rfl⟩

theorem Engine.runText_recorded (e : Engine σ) (patience : Nat) (file text : String) (log : Log) :
    (e.recorded.runText patience file text log).1.host.1 =
        (e.runText patience file text log).1.host ∧
      (e.recorded.runText patience file text log).2 = (e.runText patience file text log).2 := by
  unfold runText
  dsimp only
  cases (Code.ofText file text).result with
  | none => exact ⟨rfl, rfl⟩
  | some c =>
    obtain ⟨hhost, hlog⟩ := e.runCode_recorded patience c ((Code.ofText file text).logged log)
    exact ⟨congrArg Prod.fst hhost, hlog⟩

end StackScript
