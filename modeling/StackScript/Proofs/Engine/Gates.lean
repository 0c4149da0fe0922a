import StackScript.Proofs.Code.Independence
import StackScript.Proofs.Grammar.Acceptance
import StackScript.Proofs.Grammar.Independence
import StackScript.Proofs.Machine.Recording

/-!
The log gates each stage on the way from a text to a run. A stage that is handed a log
with earlier entries keeps them, adds behind them what it would add to an empty log, and
comes to a result exactly if it adds nothing. So a host function is called only if there
was nothing to tell about the tokens of the text, the script and its code.
-/

namespace StackScript

variable {σ α : Type}

/-- A stage tells into a log and may come to a result. -/
abbrev Stage (α : Type) := Log → Option α × Log

namespace Stage

/-- Whatever the log holds, the stage comes to the same and adds the same to it. -/
def Adds (stage : Stage α) (reading : Reading α) : Prop :=
  ∀ log, stage log = (reading.result, reading.logged log)

/-- There is a result exactly if the log is as it was. -/
def Gates (stage : Stage α) : Prop := ∀ log, (stage log).1.isSome ↔ (stage log).2 = log

end Stage

/-- Starts a rule behind the entries of a log. -/
def Grammar.runInto (rule : Rule α) (tokens : TokenStream) : Stage α := fun log =>
  let outcome := rule [] { State.ofStream tokens with faults := log.entries }
  (if outcome.state.told then none else outcome.result, ⟨outcome.state.faults⟩)

def Script.readInto (file text : String) : Stage Script :=
  Grammar.runInto Grammar.script (.ofText file text)

def Expr.readInto (file text : String) : Stage Expr :=
  Grammar.runInto Grammar.wholeExpression (.ofText file text)

/-- Emits code behind the entries of a log. -/
def Script.compileInto (s : Script) (log : Log) : Code × Log :=
  let m := s.root.emit { faults := log.entries }
  (m.code, ⟨m.faults⟩)

/-- Code for a text, if the log is as long after each stage as it was before. -/
def Code.ofTextInto (file text : String) : Stage Code := fun log =>
  match Script.readInto file text log with
  | (none, log₁) => (none, log₁)
  | (some script, log₁) =>
    if log₁.size ≠ log.size then (none, log₁)
    else
      let (code, log₂) := script.compileInto log₁
      (if log₂.size = log.size then some code else none, log₂)

theorem Log.addAll_eq_self_iff (log : Log) (ds : Array Diagnostic) :
    log.addAll ds = log ↔ ds = #[] := by
  obtain ⟨entries⟩ := log
  simp [Log.addAll]

theorem Log.size_addAll_eq_iff (log : Log) (ds : Array Diagnostic) :
    (log.addAll ds).size = log.size ↔ ds.isEmpty = true := by
  simp [Log.size, Array.size_eq_zero_iff]

/-- There is something of a text exactly if there is nothing to tell about it. -/
def Reading.Gated (reading : Reading α) : Prop := reading.result.isSome ↔ reading.faults = #[]

theorem Stage.Adds.gates {stage : Stage α} {reading : Reading α} (h : stage.Adds reading)
    (hgated : reading.Gated) : stage.Gates := by
  intro log
  rw [h log]
  exact hgated.trans (log.addAll_eq_self_iff reading.faults).symm

namespace Grammar

variable (rule : Rule α) (tokens : TokenStream)

theorem run_gated : (run rule tokens).Gated := by
  unfold run Reading.ofOutcome Reading.Gated
  generalize rule [] (.ofStream tokens) = o
  dsimp only
  rw [← o.quiet_iff]
  split
  · rename_i htold
    exact ⟨nofun, fun hquiet => absurd (htold.symm.trans hquiet) nofun⟩
  · rename_i htold
    refine ⟨fun _ => eq_false_of_ne_true htold, fun _ => ?_⟩
    rw [Option.isSome_iff_ne_none]
    -- a rule that makes nothing has told why
    intro hnone
    exact htold ((o.told_iff rfl).2 (o.2.2 hnone))

variable {rule}

theorem runInto_adds (h : rule.Oblivious) : (runInto rule tokens).Adds (run rule tokens) := by
  intro log
  have hstart : { State.ofStream tokens with faults := log.entries } =
      (State.ofStream tokens).behind log.entries :=
    State.eq_of_fields rfl rfl Array.append_empty.symm rfl
  have hbehind := h [] (.ofStream tokens) log.entries
  unfold runInto run Reading.ofOutcome Reading.logged
  rw [hstart]
  generalize rule [] (.ofStream tokens) = o at hbehind ⊢
  unfold Outcome.result Outcome.state at hbehind ⊢
  dsimp only
  rw [hbehind]
  rfl

end Grammar

theorem Script.read_gated (file text : String) : (Script.read file text).Gated :=
  Grammar.run_gated _ _

theorem Script.readInto_adds (file text : String) :
    (Script.readInto file text).Adds (Script.read file text) :=
  Grammar.runInto_adds _ Grammar.script_oblivious

theorem Expr.readInto_adds (file text : String) :
    (Expr.readInto file text).Adds (Expr.read file text) :=
  Grammar.runInto_adds _ Grammar.wholeExpression_oblivious

theorem Script.compileInto_eq (s : Script) (log : Log) :
    s.compileInto log = (s.compile.code, log.addAll s.compile.faults) := by
  have hstart : ({ faults := log.entries } : Emitter) = Emitter.behind log.entries {} := by
    rw [Emitter.behind, Array.append_empty]
  unfold compileInto compile emit
  rw [hstart, emit_oblivious.stmt s.root log.entries {}]
  rfl

/-- What there is to tell about a text that code is made of. -/
theorem Code.ofText_of_read {file text : String} {s : Script}
    (h : (Script.read file text).result = some s) :
    Script.read file text = ⟨some s, #[]⟩ ∧
      Code.ofText file text =
        ⟨if s.compile.faults.isEmpty then some s.compile.code else none, s.compile.faults⟩ := by
  have hquiet : (Script.read file text).faults = #[] :=
    (Script.read_gated file text).1 (by rw [h]; rfl)
  refine ⟨?_, ?_⟩
  · rw [← h, ← hquiet]
  · rw [ofText, h]

theorem Code.ofText_of_told {file text : String} (h : (Script.read file text).result = none) :
    Code.ofText file text = ⟨none, (Script.read file text).faults⟩ := by
  rw [ofText, h]

theorem Code.ofText_gated (file text : String) : (Code.ofText file text).Gated := by
  unfold Reading.Gated
  cases h : (Script.read file text).result with
  | none =>
    have hgated := Script.read_gated file text
    rw [Reading.Gated, h] at hgated
    rw [ofText_of_told h]
    exact hgated
  | some s =>
    rw [(ofText_of_read h).2]
    dsimp only
    split
    · rename_i hempty
      exact ⟨fun _ => Array.isEmpty_iff.1 hempty, fun _ => rfl⟩
    · rename_i hne
      exact ⟨nofun, fun hquiet => absurd (Array.isEmpty_iff.2 hquiet) hne⟩

theorem Code.ofTextInto_adds (file text : String) :
    (Code.ofTextInto file text).Adds (Code.ofText file text) := by
  intro log
  unfold ofTextInto
  rw [Script.readInto_adds file text log]
  cases h : (Script.read file text).result with
  | none =>
    rw [ofText_of_told h]
    rfl
  | some s =>
    obtain ⟨hread, htext⟩ := ofText_of_read h
    have hlog : (Script.read file text).logged log = log := by
      rw [hread]
      exact (log.addAll_eq_self_iff #[]).2 rfl
    rw [hlog, htext]
    dsimp only
    rw [if_neg (fun hne => hne rfl), Script.compileInto_eq]
    simp only [log.size_addAll_eq_iff]
    rfl

/-- A text that code is made of has tokens, a script and code with nothing to tell about
them. -/
theorem Code.quiet_of_ofText {file text : String} {c : Code}
    (h : (Code.ofText file text).result = some c) :
    (TokenStream.ofText file text).faults = [] ∧
      ∃ s, Script.read file text = ⟨some s, #[]⟩ ∧ s.compile.faults = #[] := by
  cases hread : (Script.read file text).result with
  | none =>
    rw [ofText_of_told hread] at h
    cases h
  | some s =>
    obtain ⟨hscript, htext⟩ := ofText_of_read hread
    refine ⟨((Script.read_eq_some_iff file text s).1 hread).1, s, hscript, ?_⟩
    rw [htext] at h
    dsimp only at h
    split at h
    · exact Array.isEmpty_iff.1 ‹_›
    · cases h

/-- The log gates each stage, whatever it holds already. Reading a script or an expression,
compiling and making code of a text only add to a log; what they come to and what they add
does not depend on it, and there is a result exactly if nothing was added. A text calls a
host function only if there is nothing to tell about its tokens, its script and its code. -/
theorem Engine.log_gates_stages (e : Engine σ) (patience : Nat) (file text : String) :
    ((Script.readInto file text).Adds (Script.read file text) ∧
        (Script.readInto file text).Gates) ∧
      ((Expr.readInto file text).Adds (Expr.read file text) ∧
        (Expr.readInto file text).Gates) ∧
      (∀ (s : Script) (log : Log),
        s.compileInto log = (s.compile.code, log.addAll s.compile.faults)) ∧
      ((Code.ofTextInto file text).Adds (Code.ofText file text) ∧
        (Code.ofTextInto file text).Gates) ∧
      ∀ log,
        ((e.recorded.runText patience file text log).1.host.1 =
            (e.runText patience file text log).1.host ∧
          (e.recorded.runText patience file text log).2 =
            (e.runText patience file text log).2) ∧
        ((e.recorded.runText patience file text log).1.host.2 ≠ [] →
          (TokenStream.ofText file text).faults = [] ∧
            ∃ s, Script.read file text = ⟨some s, #[]⟩ ∧ s.compile.faults = #[]) := by
  have hscript := Script.readInto_adds file text
  have hexpr := Expr.readInto_adds file text
  have hcode := Code.ofTextInto_adds file text
  refine ⟨⟨hscript, hscript.gates (Script.read_gated file text)⟩,
    ⟨hexpr, hexpr.gates (Grammar.run_gated _ _)⟩, Script.compileInto_eq,
    ⟨hcode, hcode.gates (Code.ofText_gated file text)⟩, fun log => ?_⟩
  refine ⟨e.runText_recorded patience file text log, fun hcalled => ?_⟩
  cases hc : (Code.ofText file text).result with
  | none =>
    rw [runText, hc] at hcalled
    exact absurd rfl hcalled
  | some c => exact Code.quiet_of_ofText hc

/-- A text that calls the host, run behind an earlier entry. -/
theorem Engine.log_gates_stages_called :
    let e : Engine Nat := { hosts := .counter, host := 0 }
    let earlier : Log := ⟨#[.error default .internalError []]⟩
    let run := e.recorded.runText 10 "a" "f(1);" earlier
    (run.1.host = (1, [("f", [.int 1])]) ∧ run.2 = earlier) ∧
      (TokenStream.ofText "a" "f(1);").faults = [] ∧
        ∃ s, Script.read "a" "f(1);" = ⟨some s, #[]⟩ ∧ s.compile.faults = #[] := by
  intro e earlier run
  have hrun : run.1.host = (1, [("f", [.int 1])]) ∧ run.2 = earlier := by decide +kernel
  have hcalled : run.1.host.2 ≠ [] := by
    rw [hrun.1]
    exact List.cons_ne_nil _ _
  have hgates := Engine.log_gates_stages e 10 "a" "f(1);"
  exact ⟨hrun, (hgates.2.2.2.2 earlier).2 hcalled⟩

/-- What stands before the place at fault is not called either. -/
example :
    let e : Engine Nat := { hosts := .counter, host := 0 }
    (e.recorded.runText 10 "a" "f(1); var g = fun() { f(2 };" {}).1.host = (0, []) := by
  decide +kernel

end StackScript
