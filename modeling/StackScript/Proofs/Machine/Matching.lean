import StackScript.Proofs.Machine.Direct
import StackScript.Proofs.Machine.Trace

/-!
Steps of the machine beside parts of a script. The machine matches what carrying out
a part comes to if it gets where the part is done, fails where the part fails, and
goes on for long where the part is given up, with the same calls of the host on the
way. Parts that are carried out one after the other are matched one after the other,
and each instruction matches something that is carried out in one go.
-/

namespace StackScript

variable {σ α β : Type}

namespace World

/-- Every function that the value can be is there. -/
def Knows (w : World σ) (v : Value) : Prop :=
  ∀ entry, v = .function entry → ∃ f, w.functions.lookup entry = some f

/-- No function is lost. -/
def Grows (w w' : World σ) : Prop := ∀ v, w.Knows v → w'.Knows v

theorem Grows.refl (w : World σ) : w.Grows w := fun _ h => h

theorem Grows.of_functions_eq {w w' : World σ} (h : w'.functions = w.functions) : w.Grows w' := by
  intro v hv entry hentry
  rw [h]
  exact hv entry hentry

theorem Grows.trans {w w' w'' : World σ} (h : w.Grows w') (h' : w'.Grows w'') : w.Grows w'' :=
  fun v hv => h' v (h v hv)

theorem Knows.of_ne {w : World σ} {v : Value} (h : ∀ entry, v ≠ .function entry) : w.Knows v :=
  fun entry hv => absurd hv (h entry)

end World

/-- What the host can have been passed, and the state it is in then, having started in
`start`. -/
inductive Hosts.Passed (hosts : Hosts σ) (start : σ) : List Value → σ → Prop
  | start : Passed hosts start [] start
  | call {passed : List Value} {state : σ} {name : String} {f : HostFunction σ}
      (before : Passed hosts start passed state) (hf : hosts.find? name = some f)
      (arguments : List Value) :
      Passed hosts start (passed ++ arguments) (f.answer arguments state).state

/-- The host functions look only at their arguments and at the state they share, and do
nothing to the stack but push. A function is only pushed if it has been passed before. -/
structure Hosts.Decent (hosts : Hosts σ) (start : σ) : Prop where
  looks {name : String} {f : HostFunction σ} (hf : hosts.find? name = some f)
    (below : Array Value) (arguments : List Value) (state : σ) :
    f ⟨below ++ arguments.toArray, below.size, arguments.length⟩ state =
      { f.answer arguments state with stack := below ++ (f.answer arguments state).stack }
  pushes {name : String} {f : HostFunction σ} (hf : hosts.find? name = some f)
    (arguments : List Value) (state : σ) :
    arguments <+: (f.answer arguments state).stack.toList
  grounded {name : String} {f : HostFunction σ} {passed : List Value} {state : σ}
    (hp : hosts.Passed start passed state) (hf : hosts.find? name = some f)
    (arguments : List Value) (entry : UInt32) :
    .function entry ∈ (f.answer arguments state).values arguments.length →
      .function entry ∈ passed ++ arguments

/-- The code for a function stands where its number says, with a return behind it. -/
structure Closure.Laid (code : Code) (f : Closure) (entry : UInt32) : Prop where
  entry_eq : entry.toNat = f.scope.address
  body : f.body.Laid code f.scope
  ret : ∃ p, code.Holds (f.body.behind f.scope).address .ret 0 p

/-- Functions are where they should be, and every function that is about is there. -/
structure World.Sound (s : Setting σ) (start : σ) (w : World σ) : Prop where
  functions (entry : UInt32) (f : Closure) :
    w.functions.lookup entry = some f → f.Laid s.code entry
  globals (name : String) (v : Value) : w.globals.find? name = some v → w.Knows v
  passed : ∃ passed, s.hosts.Passed start passed w.host ∧ ∀ v ∈ passed, w.Knows v

/-- The machine that agrees with the world, in front of the instruction at `pc`. -/
def World.machine (w : World σ) (pc : Nat) (stack : Array Value) (frames : Array Frame)
    (steps : Nat) : Machine σ where
  pc := pc
  stack := stack
  frames := frames
  globals := w.globals
  steps := steps
  host := w.host

namespace Machine

variable {s : Setting σ} {start : σ} {bound bound' : Nat} {m m' : Machine σ} {w w' w'' : World σ}

/-- The machine agrees with the world and is stopped by no limit from here on. -/
structure Stands (s : Setting σ) (start : σ) (m : Machine σ) (w : World σ) (pc : Nat)
    (stack : Array Value) (frames : Array Frame) : Prop where
  unlimited : m.Unlimited s
  sound : w.Sound s start
  machine_eq : ∃ steps, m = w.machine pc stack frames steps

/-- What the machine does from `m` on, where a part comes to a result from `w` on. Where
the part is given up, the machine takes at least `bound` steps. -/
def Matches (s : Setting σ) (bound : Nat) (m : Machine σ) (w : World σ)
    (arrives : α → World σ → Machine σ → Prop) : Direct.Result σ α → Prop
  | .done a w' => ∃ n m', proceed s n m = .going m' ∧ w'.calls = w.calls ++ calls s n m ∧
      w.Grows w' ∧ arrives a w' m'
  | .failed report w' => ∃ n m', proceed s n m = .ended m' report ∧
      w'.calls = w.calls ++ calls s n m ∧ m'.globals = w'.globals ∧ m'.host = w'.host
  | .pending w' => ∃ n m', bound ≤ n ∧ proceed s n m = .going m' ∧
      w'.calls = w.calls ++ calls s n m

namespace Matches

variable {A A' : α → World σ → Machine σ → Prop} {B : β → World σ → Machine σ → Prop}
  {r : Direct.Result σ α}

theorem done {a : α} (h : A a w m) : Matches s bound m w A (.done a w) :=
  ⟨0, m, rfl, by simp only [calls, List.append_nil], .refl w, h⟩

theorem weaken (h : Matches s bound m w A r) (hle : bound' ≤ bound) :
    Matches s bound' m w A r := by
  cases r with
  | done a w' => exact h
  | failed report w' => exact h
  | pending w' =>
    obtain ⟨n, m', hn, hrest⟩ := h
    exact ⟨n, m', Nat.le_trans hle hn, hrest⟩

/-- Steps in front of what is matched. -/
theorem after {n : Nat} (hgo : proceed s n m = .going m')
    (hcalls : w'.calls = w.calls ++ calls s n m) (hgrows : w.Grows w')
    (h : Matches s bound m' w' A r) : Matches s (n + bound) m w A r := by
  have hproceed (k : Nat) : proceed s (n + k) m = proceed s k m' := by
    rw [proceed_add, hgo]
  have hcalls' (k : Nat) : w.calls ++ calls s (n + k) m = w'.calls ++ calls s k m' := by
    rw [calls_add hgo, hcalls, List.append_assoc]
  cases r with
  | done a w'' =>
    obtain ⟨k, m'', hgo', hcalls'', hgrows', ha⟩ := h
    exact ⟨n + k, m'', (hproceed k).trans hgo', hcalls''.trans (hcalls' k).symm,
      hgrows.trans hgrows', ha⟩
  | failed report w'' =>
    obtain ⟨k, m'', hend, hcalls'', hrest⟩ := h
    exact ⟨n + k, m'', (hproceed k).trans hend, hcalls''.trans (hcalls' k).symm, hrest⟩
  | pending w'' =>
    obtain ⟨k, m'', hk, hgo', hcalls''⟩ := h
    exact ⟨n + k, m'', Nat.add_le_add_left hk n, (hproceed k).trans hgo',
      hcalls''.trans (hcalls' k).symm⟩

/-- What comes behind is matched from where the first part has arrived. -/
theorem bind {x : Direct σ α} {f : α → Direct σ β} (h : Matches s bound m w A (x w))
    (hf : ∀ a w' m', w.Grows w' → A a w' m' → Matches s bound m' w' B (f a w')) :
    Matches s bound m w B ((x >>= f) w) := by
  change Matches s bound m w B (Direct.bind x f w)
  unfold Direct.bind
  cases hx : x w with
  | done a w' =>
    rw [hx] at h
    obtain ⟨n, m', hgo, hcalls, hgrows, ha⟩ := h
    exact (after hgo hcalls hgrows (hf a w' m' hgrows ha)).weaken (Nat.le_add_left bound n)
  | failed report w' =>
    rw [hx] at h
    exact h
  | pending w' =>
    rw [hx] at h
    exact h

/-- What the machine does behind a part while nothing is carried out. -/
theorem onward {r : Direct.Result σ α} (h : Matches s bound m w A r)
    (hrest : ∀ a w' m', A a w' m' → Matches s bound m' w' A' (.done a w')) :
    Matches s bound m w A' r := by
  cases r with
  | done a w' =>
    obtain ⟨n, m', hgo, hcalls, hgrows, ha⟩ := h
    exact (after hgo hcalls hgrows (hrest a w' m' ha)).weaken (Nat.le_add_left bound n)
  | failed report w' => exact h
  | pending w' => exact h

/-- One step in front of what is matched. -/
theorem step (hstep : m.step s = .next m')
    (hcalls : w'.calls = w.calls ++ (hostCall? s m).toList) (hgrows : w.Grows w')
    (h : Matches s bound m' w' A r) : Matches s (bound + 1) m w A r := by
  have hgo : proceed s 1 m = .going m' := by
    rw [proceed, hstep]
    rfl
  have hcalls' : w'.calls = w.calls ++ calls s 1 m := by
    rw [hcalls, calls, hstep]
    simp only [calls, List.append_nil]
  exact (after hgo hcalls' hgrows h).weaken (Nat.le_of_eq (Nat.add_comm bound 1))

theorem failed {report : Array Diagnostic} (hstep : m.step s = .failed m' report)
    (hglobals : m'.globals = w.globals) (hhost : m'.host = w.host) :
    Matches s bound m w A (.failed report w) := by
  refine ⟨1, m', ?_, ?_, hglobals, hhost⟩
  · rw [proceed, hstep]
  · rw [calls, hstep, List.append_nil]

end Matches

/-- The value of an expression has come on top of the stack. -/
def HasPushed (s : Setting σ) (start : σ) (pc : Nat) (stack : Array Value)
    (frames : Array Frame) (v : Value) (w : World σ) (m : Machine σ) : Prop :=
  m.Stands s start w pc (stack.push v) frames ∧ w.Knows v

/-- A statement has been carried out, or it has come to a return. -/
def HasLeft (s : Setting σ) (start : σ) (pc : Nat) (stack : Array Value)
    (frames : Array Frame) : Flow → World σ → Machine σ → Prop
  | .next, w, m => m.Stands s start w pc stack frames
  | .returned value, w, m => ∃ pc' p, s.code.Holds pc' .ret value.toList.length p ∧
      m.Stands s start w pc' (value.elim stack stack.push) frames ∧
      ∀ v ∈ value.toList, w.Knows v

end Machine

/-- Wherever the code for the statement stands, the machine does what `run` says. -/
def Stmt.Follows (s : Setting σ) (start : σ) (bound : Nat) (t : Stmt)
    (run : Scope → Direct σ Flow) : Prop :=
  ∀ (place : Scope) (m : Machine σ) (w : World σ) (stack : Array Value) (frames : Array Frame),
    t.Laid s.code place → m.Stands s start w place.address stack frames →
      Machine.Matches s bound m w (Machine.HasLeft s start (t.behind place).address stack frames)
        (run place w)

end StackScript
