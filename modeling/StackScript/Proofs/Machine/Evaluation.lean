import StackScript.Tree.Evaluate
import StackScript.Proofs.Machine.Agreement

/-!
Operators on the machine and without it. Evaluation tells of every operator without
a result and goes on with null, and the machine stops at the first one. Up to there
both compute the same values, so what the machine tells is what evaluation tells
first.
-/

namespace StackScript

variable {σ : Type}

/-- An error and the notes that belong to it. -/
def IsReport (ds : List Diagnostic) : Prop :=
  ∃ error notes, ds = error :: notes ∧ error.severity ≠ .note ∧ ∀ d ∈ notes, d.severity = .note

/-- What is told first: one entry and all notes behind it. -/
def firstReport : List Diagnostic → List Diagnostic
  | [] => []
  | error :: ds => error :: ds.takeWhile fun d => d.severity = .note

theorem firstReport_flatten {report : List Diagnostic} {reports : List (List Diagnostic)}
    (h : IsReport report) (hs : ∀ r ∈ reports, IsReport r) :
    firstReport (report :: reports).flatten = report := by
  obtain ⟨error, notes, rfl, -, hnotes⟩ := h
  have hrest : reports.flatten.takeWhile (fun d => d.severity = .note) = [] := by
    cases reports with
    | nil => rfl
    | cons r rs =>
      obtain ⟨error', notes', rfl, herror, -⟩ := hs r List.mem_cons_self
      exact List.takeWhile_cons_of_neg (by simpa using herror)
  rw [List.flatten_cons, List.cons_append, firstReport,
    List.takeWhile_append_of_pos (by simpa using hnotes), hrest, List.append_nil]

theorem UnaryOp.isReport (op : UnaryOp) (fault : OperandFault) (p : Position)
    (operand : Position × Value) : IsReport (op.report fault p operand).toList :=
  ⟨_, _, rfl, by simp [Diagnostic.error], by simp [Value.noteAt, Diagnostic.note]⟩

theorem BinaryOp.isReport (op : BinaryOp) (fault : OperandFault) (p : Position)
    (left right : Position × Value) : IsReport (op.report fault p left right).toList := by
  cases fault <;>
    exact ⟨_, _, rfl, by simp [Diagnostic.error], by simp [Value.noteAt, Diagnostic.note]⟩

namespace Direct

/-- A value, unless something has been told on the way to it. -/
def halted (v : Value) : List (List Diagnostic) → Direct σ Value
  | [] => return v
  | report :: _ => stop report.toArray

theorem halted_bind {v v' : Value} {reports reports' : List (List Diagnostic)}
    {f : Value → Direct σ Value} (h : f v = halted v' reports') :
    (halted v reports >>= f) = halted v' (reports ++ reports') := by
  cases reports with
  | nil => exact h
  | cons report reports => rfl

end Direct

/-- Constants, parentheses and operators alone. -/
inductive Expr.Evaluable : Expr → Prop
  | literal {value : Value} {p : Position} (h : ∀ entry, value ≠ .function entry) :
      Evaluable (.literal value p)
  | group {inner : Expr} {p : Position} (h : inner.Evaluable) : Evaluable (.group inner p)
  | unary {op : UnaryOp} {operand : Expr} {p : Position} (h : operand.Evaluable) :
      Evaluable (.unary op operand p)
  | binary {op : BinaryOp} {left right : Expr} {p : Position} (hl : left.Evaluable)
      (hr : right.Evaluable) : Evaluable (.binary op left right p)
  | logical {op : LogicalOp} {left right : Expr} {p : Position} (hl : left.Evaluable)
      (hr : right.Evaluable) : Evaluable (.logical op left right p)

namespace Expr.Evaluable

variable {e : Expr}

theorem addressFree (h : e.Evaluable) : e.AddressFree := by
  induction h with
  | literal h => exact h
  | group _ ih => exact ih
  | unary _ ih => exact ih
  | binary _ _ ihl ihr => exact ⟨ihl, ihr⟩
  | logical _ _ ihl ihr => exact ⟨ihl, ihr⟩

theorem follows (h : e.Evaluable) (s : Setting σ) (start : σ) (bound : Nat) (again : Again σ) :
    e.Follows s start bound again := by
  induction h with
  | literal h => exact fun place m w stack frames hlaid hm => .literal hm hlaid
  | group _ ih => exact ih
  | unary _ ih => exact ih.unary _
  | binary _ _ ihl ihr => exact ihl.binary ihr _
  | logical _ _ ihl ihr => exact ihl.logical ihr _

/-- Carrying out an expression, where evaluation goes from one log to the other, comes to
the value, or to the first of the reports that evaluation adds. -/
def Tells (log : Log) (r : Value × Log) (x : Direct σ Value) : Prop :=
  ∃ reports : List (List Diagnostic), (∀ report ∈ reports, IsReport report) ∧
    r.2.entries.toList = log.entries.toList ++ reports.flatten ∧ x = Direct.halted r.1 reports

theorem Tells.bind {log log' : Log} {v : Value} {r : Value × Log} {x : Direct σ Value}
    {f : Value → Direct σ Value} (h : Tells log (v, log') x) (h' : Tells log' r (f v)) :
    Tells log r (x >>= f) := by
  obtain ⟨reports, hreports, hlog, rfl⟩ := h
  obtain ⟨reports', hreports', hlog', hf⟩ := h'
  refine ⟨reports ++ reports', fun report hmem => ?_, ?_, Direct.halted_bind hf⟩
  · exact (List.mem_append.1 hmem).elim (hreports report) (hreports' report)
  · rw [hlog', hlog, List.flatten_append, List.append_assoc]

theorem Tells.value (log : Log) (v : Value) : Tells log (v, log) (pure v : Direct σ Value) :=
  ⟨[], by simp, by simp, rfl⟩

theorem Tells.report (log : Log) {report : Array Diagnostic} (h : IsReport report.toList) :
    Tells log (.null, log.addAll report) (Direct.stop report : Direct σ Value) :=
  ⟨[report.toList], by simpa using h, by simp, rfl⟩

theorem Tells.unary (op : UnaryOp) (p : Position) (operand : Position × Value) (log : Log) :
    Tells log
      (match op.apply operand.2 with
        | .ok result => (result, log)
        | .error fault => (.null, log.addAll (op.report fault p operand)))
      (Direct.unary op p operand : Direct σ Value) := by
  unfold Direct.unary
  cases op.apply operand.2 with
  | ok result => exact .value log result
  | error fault => exact .report log (op.isReport fault p operand)

theorem Tells.binary (op : BinaryOp) (p : Position) (left right : Position × Value)
    (log : Log) :
    Tells log
      (match op.apply left.2 right.2 with
        | .ok result => (result, log)
        | .error fault => (.null, log.addAll (op.report fault p left right)))
      (Direct.binary op p left right : Direct σ Value) := by
  unfold Direct.binary
  cases op.apply left.2 right.2 with
  | ok result => exact .value log result
  | error fault => exact .report log (op.isReport fault p left right)

theorem exec_tells (h : e.Evaluable) (hosts : Hosts σ) (again : Again σ) (place : Scope)
    (log : Log) : Tells log (e.evaluate log) (e.exec hosts again place) := by
  induction h generalizing place log with
  | @literal value p h => exact .value log value
  | group _ ih => exact ih place log
  | @unary op operand p _ ih =>
    have h := ih place log
    rw [evaluate, exec]
    generalize operand.evaluate log = r at h
    obtain ⟨v, log'⟩ := r
    exact h.bind (.unary op p (operand.position, v) log')
  | @binary op left right p _ _ ihl ihr =>
    have hleft := ihl place log
    rw [evaluate, exec]
    generalize left.evaluate log = r at hleft
    obtain ⟨a, log₁⟩ := r
    have hright := ihr (left.behind place) log₁
    dsimp only
    generalize right.evaluate log₁ = r at hright
    obtain ⟨b, log₂⟩ := r
    exact hleft.bind (hright.bind (.binary op p (left.position, a) (right.position, b) log₂))
  | @logical op left right p _ _ ihl ihr =>
    have hleft := ihl place log
    rw [evaluate, exec]
    generalize left.evaluate log = r at hleft
    obtain ⟨a, log₁⟩ := r
    have hright := ihr ((left.behind place).skip op.gap) log₁
    refine hleft.bind ?_
    dsimp only
    by_cases hsettled : op.isSettledBy a.isTruthy = true
    · rw [if_pos hsettled, if_pos hsettled]
      exact .value log₁ (.bool a.isTruthy)
    · rw [if_neg hsettled, if_neg hsettled]
      generalize right.evaluate log₁ = r at hright
      obtain ⟨b, log₂⟩ := r
      exact hright.bind (.value log₂ (.bool b.isTruthy))

end Expr.Evaluable

theorem Run.eq_ended {r : Run σ} {globals : Globals} {host : σ} {report : Array Diagnostic}
    (h : r.ending = some (globals, host, report)) :
    ∃ m, r = .ended m report ∧ m.globals = globals := by
  cases r with
  | going m => cases h
  | ended m report' =>
    cases h
    exact ⟨m, rfl, rfl⟩

/-- A declaration of the value of an expression, as a whole script. -/
def Expr.declared (e : Expr) (name : String) (p q : Position) : Script := ⟨[.declare name e p], q⟩

theorem Expr.Evaluable.root_follows {e : Expr} (h : e.Evaluable) (name : String) (p q : Position)
    (s : Setting σ) (start : σ) (bound : Nat) (again : Again σ) :
    (e.declared name p q).root.Follows s start bound
      ((e.declared name p q).root.exec s.hosts again) := by
  intro place m w stack frames hlaid hm
  refine execStatements_matches (fun t ht => ?_) place hlaid hm
  obtain rfl := List.mem_singleton.1 ht
  exact (h.follows s start bound again).declare name

section Declared

variable {e : Expr} {name : String} {p q : Position} {hosts : Hosts σ} {again : Again σ}
  {host : σ}

theorem Expr.ending_of_value {v : Value}
    (h : e.exec hosts again (Scope.declare {} name) = Direct.halted v []) :
    ((e.declared name p q).root.exec hosts again {} { host }).behaviour.ending =
      some (Globals.put {} name v, host, #[]) := by
  unfold declared Script.root
  rw [Stmt.exec, execStatements, Stmt.exec, h]
  rfl

theorem Expr.ending_of_report {v : Value} {report : List Diagnostic}
    {reports : List (List Diagnostic)}
    (h : e.exec hosts again (Scope.declare {} name) = Direct.halted v (report :: reports)) :
    ((e.declared name p q).root.exec hosts again {} { host }).behaviour.ending =
      some ({}, host, report.toArray) := by
  unfold declared Script.root
  rw [Stmt.exec, execStatements, Stmt.exec, h]
  rfl

end Declared

/-- On the machine an expression has the value that evaluation gives it, if there is
nothing to tell. Otherwise the machine tells what evaluation tells first, and gives
no value to the variable. -/
theorem Expr.run_agrees_evaluate {e : Expr} {name : String} {p q : Position} {s : Setting σ}
    {host : σ} (h : e.Evaluable) (hclean : (e.declared name p q).compile.faults = #[])
    (hcode : s.code = (e.declared name p q).compile.code)
    (hlimits : ∀ n, (Machine.run s n { host }).hitsLimit = false) :
    ∃ n m report, Machine.run s n { host } = .ended m report ∧
      if (e.evaluate {}).2.isEmpty then
        report = #[] ∧ m.globals.find? name = some (e.evaluate {}).1
      else
        report.toList = firstReport (e.evaluate {}).2.entries.toList ∧
          m.globals.find? name = none := by
  have hfree : EachAddressFree (e.declared name p q).statements := ⟨h.addressFree, trivial⟩
  obtain ⟨n, hseen, -⟩ := Script.behaviour_of_follows hfree hclean hcode hlimits
    (h.root_follows name p q s host 0 fun _ _ w => .pending w)
  obtain ⟨reports, hreports, hlog, hexec⟩ :=
    h.exec_tells s.hosts (fun _ _ w => .pending w) (Scope.declare {} name) {}
  have hrun : (Machine.run s n { host }).ending = _ := congrArg Behaviour.ending hseen
  cases reports with
  | nil =>
    rw [Expr.ending_of_value hexec] at hrun
    obtain ⟨m, hm, hglobals⟩ := Run.eq_ended hrun
    have hempty : (e.evaluate {}).2.isEmpty = true := by
      simpa [Log.isEmpty] using hlog
    refine ⟨n, m, #[], hm, ?_⟩
    rw [if_pos hempty, hglobals, Globals.find?_put, if_pos rfl]
    exact ⟨rfl, rfl⟩
  | cons report reports =>
    rw [Expr.ending_of_report hexec] at hrun
    obtain ⟨m, hm, hglobals⟩ := Run.eq_ended hrun
    obtain ⟨hreport, hrest⟩ := List.forall_mem_cons.1 hreports
    have hfirst : firstReport (e.evaluate {}).2.entries.toList = report := by
      rw [hlog]
      exact firstReport_flatten hreport hrest
    have hempty : ¬(e.evaluate {}).2.isEmpty = true := by
      obtain ⟨error, notes, rfl, -⟩ := hreport
      intro hempty
      rw [Log.isEmpty, Array.isEmpty_iff] at hempty
      rw [hempty] at hfirst
      cases hfirst
    refine ⟨n, m, report.toArray, hm, ?_⟩
    rw [if_neg hempty, hglobals, hfirst]
    exact ⟨rfl, rfl⟩

/-- The expression `1 + -null`, of which evaluation tells twice and the machine once. -/
def negatedNull : Expr :=
  .binary .add (.literal (.int 1) ⟨"", 1, 9⟩)
    (.unary .negate (.literal .null ⟨"", 1, 14⟩) ⟨"", 1, 13⟩) ⟨"", 1, 11⟩

theorem negatedNull_agrees :
    ∃ (script : Script) (n : Nat) (m : Machine Unit) (report : Array Diagnostic),
      script = negatedNull.declared "r" ⟨"", 1, 1⟩ ⟨"", 1, 1⟩ ∧
      Machine.run ⟨script.compile.code, {}, {}⟩ n { host := () } = .ended m report ∧
      report.toList = [.error ⟨"", 1, 13⟩ .operationOnNull ["-"],
        Value.null.noteAt ⟨"", 1, 14⟩] ∧
      m.globals.find? "r" = none := by
  have heval : negatedNull.Evaluable :=
    .binary (.literal (by simp)) (.unary (.literal (by simp)))
  have hclean : (negatedNull.declared "r" ⟨"", 1, 1⟩ ⟨"", 1, 1⟩).compile.faults = #[] := by
    decide +kernel
  have hlimits : ∀ n, (Machine.run (σ := Unit)
      ⟨(negatedNull.declared "r" ⟨"", 1, 1⟩ ⟨"", 1, 1⟩).compile.code, {}, {}⟩ n
      { host := () }).hitsLimit = false :=
    Machine.run_unlimited (n := 10) (by decide +kernel) (by decide +kernel)
  obtain ⟨n, m, report, hrun, htold⟩ := Expr.run_agrees_evaluate heval hclean rfl hlimits
  rw [if_neg (by decide +kernel)] at htold
  refine ⟨_, n, m, report, rfl, hrun, htold.1.trans (by decide +kernel), htold.2⟩

end StackScript
