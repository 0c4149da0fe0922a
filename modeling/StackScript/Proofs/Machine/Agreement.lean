import StackScript.Proofs.Machine.Simulation
import StackScript.Proofs.Code.Checks
import StackScript.Proofs.Grammar.Constants

/-!
Compiled scripts do on the machine what the scripts say. What is seen of a script is
which calls of the host it makes and, once it is over, its variables, the state of the
host and what is told. A script need not end, so two ways of carrying one out agree
if whatever is seen of one in some time is seen of the other in time.
-/

namespace StackScript

variable {σ : Type}

/-- What is seen of a script in some time. -/
structure Behaviour (σ : Type) where
  calls : List (String × List Value)
  /-- Variables, the host and what is told, if the script has ended. -/
  ending : Option (Globals × σ × Array Diagnostic)

namespace Behaviour

/-- What is seen of the same script later on. -/
def Before (b b' : Behaviour σ) : Prop :=
  b.calls <+: b'.calls ∧ (b.ending.isSome → b' = b)

/-- What is seen one way is seen the other way in time. -/
def Agree (f g : Nat → Behaviour σ) : Prop :=
  (∀ n, ∃ k, (f n).Before (g k)) ∧ ∀ k, ∃ n, (g k).Before (f n)

theorem Before.refl (b : Behaviour σ) : b.Before b := ⟨List.prefix_refl b.calls, fun _ => rfl⟩

/-- Where two ways agree, they end alike or not at all. -/
theorem Agree.ends_iff {f g : Nat → Behaviour σ} (h : Agree f g) {b : Behaviour σ}
    (hb : b.ending.isSome) : (∃ n, f n = b) ↔ ∃ k, g k = b := by
  constructor
  · rintro ⟨n, rfl⟩
    obtain ⟨k, -, hk⟩ := h.1 n
    exact ⟨k, hk hb⟩
  · rintro ⟨k, rfl⟩
    obtain ⟨n, -, hn⟩ := h.2 k
    exact ⟨n, hn hb⟩

end Behaviour

def Direct.Result.behaviour {α : Type} : Direct.Result σ α → Behaviour σ
  | done _ w => ⟨w.calls, some (w.globals, w.host, #[])⟩
  | failed report w => ⟨w.calls, some (w.globals, w.host, report)⟩
  | pending w => ⟨w.calls, none⟩

def Run.ending : Run σ → Option (Globals × σ × Array Diagnostic)
  | ended m report => some (m.globals, m.host, report)
  | going _ => none

namespace Machine

variable {s : Setting σ} {m m' : Machine σ} {start : σ}

/-- What is seen of the machine from `m` on. -/
def observe (s : Setting σ) (n : Nat) (m : Machine σ) : Behaviour σ :=
  ⟨calls s n m, (proceed s n m).ending⟩

/-- What is seen of a run. Code that is not run at all calls nothing. -/
def behaviour (s : Setting σ) (n : Nat) (m : Machine σ) : Behaviour σ where
  calls := match s.code.check with
    | .ok _ => calls s n m.reset
    | .error _ => []
  ending := (run s n m).ending

theorem behaviour_eq_observe (h : s.code.check = .ok ()) (n : Nat) (m : Machine σ) :
    behaviour s n m = observe s n m.reset := by
  unfold behaviour observe run
  rw [h]

theorem calls_of_ended {n : Nat} {report : Array Diagnostic}
    (h : proceed s n m = .ended m' report) (k : Nat) : calls s (n + k) m = calls s n m := by
  induction n generalizing m with
  | zero => cases h
  | succ n ih =>
    rw [proceed] at h
    rw [Nat.add_right_comm, calls, calls]
    cases hstep : m.step s with
    | next m₁ =>
      rw [hstep] at h
      dsimp only at h ⊢
      rw [ih h]
    | finished m₁ | failed m₁ report => rfl

theorem observe_before (n k : Nat) (m : Machine σ) :
    (observe s n m).Before (observe s (n + k) m) := by
  unfold observe Behaviour.Before
  cases hrun : proceed s n m with
  | ended m' report =>
    have hrun' : proceed s (n + k) m = .ended m' report := by rw [proceed_add, hrun]
    rw [calls_of_ended hrun, hrun']
    exact ⟨List.prefix_refl _, fun _ => rfl⟩
  | going m' =>
    rw [calls_add hrun]
    exact ⟨List.prefix_append _ _, fun h => by cases h⟩

/-- The run is over at the end of the code. -/
theorem Stands.finished {w : World σ} {pc : Nat} (h : m.Stands s start w pc #[] #[])
    (hpc : s.code.size ≤ pc) : m.step s = .finished m := by
  obtain ⟨steps, rfl⟩ := h.machine_eq
  have hnone : s.code.instructions[(w.machine pc #[] #[] steps).pc]? = none :=
    Array.getElem?_eq_none hpc
  rw [step, hnone]

/-- So it is at a return outside of all functions. -/
theorem Stands.returned {w : World σ} {pc : Nat} {value : Option Value} {p : Position}
    (h : m.Stands s start w pc (value.elim #[] (#[]).push) #[])
    (hc : s.code.Holds pc .ret value.toList.length p) :
    ∃ m', m.step s = .finished m' ∧ m'.globals = w.globals ∧ m'.host = w.host := by
  obtain ⟨operand, steps, hn, hstep⟩ := h.step_eq hc
  refine ⟨w.machine pc #[] #[] steps, ?_, rfl, rfl⟩
  rw [hstep]
  cases value with
  | none =>
    simp only [execute, hn, Option.toList_none, List.length_nil]
    rfl
  | some v =>
    simp only [execute, hn, Option.toList_some, List.length_singleton, Option.elim_some,
      withTop_machine]
    rfl

theorem Matches.observe {bound pc : Nat} {host : σ} {r : Direct.Result σ Flow}
    (hpc : s.code.size ≤ pc)
    (h : Matches s bound m { host } (HasLeft s start pc #[] #[]) r) :
    ∃ n, Machine.observe s n m = r.behaviour ∧ (r.behaviour.ending = none → bound ≤ n) := by
  have hends {n : Nat} {m₁ m₂ : Machine σ} {w : World σ} (hgo : proceed s n m = .going m₁)
      (hcalls : w.calls = [] ++ calls s n m) (hstep : m₁.step s = .finished m₂)
      (hglobals : m₂.globals = w.globals) (hhost : m₂.host = w.host) :
      Machine.observe s (n + 1) m = ⟨w.calls, some (w.globals, w.host, #[])⟩ := by
    have hrun : proceed s (n + 1) m = .ended m₂ #[] := by
      rw [proceed_add, hgo]
      dsimp only
      rw [proceed, hstep]
    have hcalls' : calls s (n + 1) m = w.calls := by
      rw [calls_add hgo, hcalls, calls, hstep, List.append_nil, List.nil_append]
    unfold Machine.observe
    rw [hrun, hcalls', Run.ending, hglobals, hhost]
  cases r with
  | done flow w =>
    obtain ⟨n, m', hgo, hcalls, -, hleft⟩ := h
    refine ⟨n + 1, ?_, fun hnone => by cases hnone⟩
    cases flow with
    | next =>
      obtain ⟨steps, hmachine⟩ := hleft.machine_eq
      exact hends hgo hcalls (hleft.finished hpc) (by rw [hmachine]; rfl) (by rw [hmachine]; rfl)
    | returned value =>
      obtain ⟨pc', p, hret, hstands, -⟩ := hleft
      obtain ⟨m'', hstep, hglobals, hhost⟩ := hstands.returned hret
      exact hends hgo hcalls hstep hglobals hhost
  | failed report w =>
    obtain ⟨n, m', hend, hcalls, hglobals, hhost⟩ := h
    refine ⟨n, ?_, fun hnone => by cases hnone⟩
    unfold Machine.observe
    rw [hend, Run.ending, hglobals, hhost]
    exact congrArg (Behaviour.mk · _) hcalls.symm
  | pending w =>
    obtain ⟨n, m', hn, hgo, hcalls⟩ := h
    refine ⟨n, ?_, fun _ => hn⟩
    unfold Machine.observe
    rw [hgo, Run.ending]
    exact congrArg (Behaviour.mk · _) hcalls.symm

end Machine

namespace Script

variable {script : Script} {s : Setting σ} {host : σ}

/-- What the machine does with the code of a script is seen of the run. -/
theorem behaviour_of_follows {bound : Nat} {run : Scope → Direct σ Flow}
    (hfree : EachAddressFree script.statements) (hclean : script.compile.faults = #[])
    (hcode : s.code = script.compile.code)
    (hlimits : ∀ n, (Machine.run s n { host }).hitsLimit = false)
    (h : script.root.Follows s host bound run) :
    ∃ n, Machine.behaviour s n { host } = (run {} { host }).behaviour ∧
      ((run {} { host }).behaviour.ending = none → bound ≤ n) := by
  have hcheck : s.code.check = .ok () := by rw [hcode, script.check_compile hfree hclean]
  obtain ⟨hlaid, hsize⟩ := script.compile_laid hfree hclean
  rw [← hcode] at hlaid hsize
  have hsound : World.Sound s host { host } :=
    ⟨fun _ _ h => (by cases h), fun _ _ h => (by cases h), [], .start, by simp⟩
  have hunlimited : Machine.Unlimited s ({ host } : Machine σ).reset := by
    intro n
    have hn := hlimits n
    unfold Machine.run at hn
    rwa [hcheck] at hn
  have hmatches := h {} ({ host } : Machine σ).reset { host } #[] #[] hlaid
    ⟨hunlimited, hsound, 0, rfl⟩
  simp only [Machine.behaviour_eq_observe hcheck]
  exact hmatches.observe (Nat.le_of_eq hsize)

theorem behaviour_before (hcheck : s.code.check = .ok ()) (n k : Nat) (m : Machine σ) :
    (Machine.behaviour s n m).Before (Machine.behaviour s (n + k) m) := by
  simp only [Machine.behaviour_eq_observe hcheck]
  exact Machine.observe_before n k m.reset

/-- Nothing but the limits keeps the machine from doing what the script says. -/
theorem exec_agrees (hfree : EachAddressFree script.statements)
    (hclean : script.compile.faults = #[]) (hcode : s.code = script.compile.code)
    (hhosts : s.hosts.Decent host)
    (hlimits : ∀ n, (Machine.run s n { host }).hitsLimit = false) :
    Behaviour.Agree (fun n => Machine.behaviour s n { host })
      (fun patience => (script.exec s.hosts patience host).behaviour) := by
  have hcheck : s.code.check = .ok () := by rw [hcode, script.check_compile hfree hclean]
  have hseen (k : Nat) := behaviour_of_follows hfree hclean hcode hlimits
    (execWithin_follows hhosts k script.root)
  constructor
  · intro n
    -- As much patience as the machine takes steps is enough.
    obtain ⟨k, hk, hbound⟩ := hseen n
    refine ⟨n, ?_⟩
    change Behaviour.Before _ (execWithin s.hosts n {} script.root { host }).behaviour
    rw [← hk]
    rcases Nat.le_total n k with hle | hle
    · obtain ⟨d, rfl⟩ := Nat.le.dest hle
      exact behaviour_before hcheck n d { host }
    · obtain ⟨d, rfl⟩ := Nat.le.dest hle
      cases hending : (Machine.behaviour s k { host }).ending with
      | none =>
        rw [← hk] at hbound
        obtain rfl : d = 0 := by
          have := hbound hending
          omega
        exact .refl _
      | some ending =>
        have hsame := (behaviour_before hcheck k d { host }).2 (by rw [hending]; rfl)
        simp only [hsame]
        exact .refl _
  · intro k
    obtain ⟨n, hn, -⟩ := hseen k
    refine ⟨n, ?_⟩
    change (execWithin s.hosts k {} script.root { host }).behaviour.Before _
    rw [← hn]
    exact .refl _

end Script

/-- A compiled script makes the same calls of the host as the script itself, with the same
arguments and in the same order, leaves the same variables and tells the same, and ends
if and only if the script ends. -/
theorem Script.compiled_agrees {file text : String} {script : Script} {s : Setting σ} {host : σ}
    (hread : (Script.read file text).result = some script)
    (hclean : script.compile.faults = #[]) (hcode : s.code = script.compile.code)
    (hhosts : s.hosts.Decent host)
    (hlimits : ∀ n, (Machine.run s n { host }).hitsLimit = false) :
    Behaviour.Agree (fun n => Machine.behaviour s n { host })
      (fun patience => (script.exec s.hosts patience host).behaviour) :=
  script.exec_agrees (Script.read_addressFree hread) hclean hcode hhosts hlimits

/-- A host with one function, which counts its calls and answers each with the same int. -/
def Hosts.counter : Hosts Nat where
  functions := [("f", fun call count => ⟨call.stack.push (.int 7), 1, count + 1⟩)]

theorem Hosts.counter_decent : Hosts.counter.Decent 0 := by
  have hf {name : String} {f : HostFunction Nat} (h : Hosts.counter.find? name = some f) :
      f = fun call count => ⟨call.stack.push (.int 7), 1, count + 1⟩ := by
    unfold Hosts.counter find? at h
    rw [List.lookup_cons] at h
    split at h
    · exact (Option.some.inj h).symm
    · cases h
  constructor
  · intro name f h below arguments state
    rw [hf h]
    simp [HostFunction.answer]
  · intro name f h arguments state
    rw [hf h]
    simp [HostFunction.answer]
  · intro name f passed state _ h arguments entry hmem
    rw [hf h] at hmem
    simp [HostFunction.answer, HostReply.values] at hmem

theorem Script.counted_call_agrees :
    ∃ script, (Script.read "" "var a = f(1); if (a) a = g;").result = some script ∧
      script.compile.faults = #[] ∧
      Behaviour.Agree
        (fun n => Machine.behaviour ⟨script.compile.code, .counter, {}⟩ n { host := 0 })
        (fun patience => (script.exec .counter patience 0).behaviour) := by
  have hread : (Script.read "" "var a = f(1); if (a) a = g;").result =
      some ((Script.read "" "var a = f(1); if (a) a = g;").result.getD default) := by
    obtain ⟨script, hscript⟩ := Option.isSome_iff_exists.1 (show
      (Script.read "" "var a = f(1); if (a) a = g;").result.isSome = true by decide +kernel)
    rw [hscript, Option.getD_some]
  have hclean : ((Script.read "" "var a = f(1); if (a) a = g;").result.getD
      default).compile.faults = #[] := by decide +kernel
  refine ⟨_, hread, hclean, compiled_agrees hread hclean rfl Hosts.counter_decent ?_⟩
  exact Machine.run_unlimited (n := 20) (by decide +kernel) (by decide +kernel)

end StackScript
