import StackScript.Token.Scan
import StackScript.Tree.Basic

/-!
Grammar rules. A rule reads tokens and makes something of them or fails; either
way it tells what is wrong in the order in which it is met. It never gives a token
back, never takes back what it told, notes that it has told something exactly if it
has, and does not fail without telling why. These facts are part of the type, so a
loop that takes a token in each round ends, and a rule that told nothing has not
failed.
-/

namespace StackScript.Grammar

variable {α β : Type}

structure State where
  /-- The tokens still to be read. -/
  ahead : List Scanned
  /-- How many there are. -/
  left : Nat := ahead.length
  left_eq : left = ahead.length := by rfl
  stop : Scanned
  /-- What has been told so far. -/
  faults : Array Diagnostic := #[]
  /-- Whether any of that was told by the rules. -/
  told : Bool := false

namespace State

def ofStream (tokens : TokenStream) : State := { ahead := tokens.ahead, stop := tokens.stop }

/-- Tells what was wrong with the next token, once. -/
def settle (s : State) : State :=
  match h : s.ahead with
  | [] =>
    { s with
      stop := { s.stop with faults := #[] }
      faults := s.faults ++ s.stop.faults
      told := s.told || !s.stop.faults.isEmpty }
  | t :: rest =>
    if t.faults.isEmpty then s
    else
      { s with
        ahead := { t with faults := #[] } :: rest
        left_eq := by simp [s.left_eq, h]
        faults := s.faults ++ t.faults
        told := true }

@[simp] theorem left_settle (s : State) : s.settle.left = s.left := by
  unfold settle
  split
  · rfl
  · split <;> rfl

theorem size_le_settle (s : State) : s.faults.size ≤ s.settle.faults.size := by
  unfold settle
  split
  · simp
  · split <;> simp

theorem told_settle_iff (s : State) :
    s.settle.told = true ↔ s.told = true ∨ s.faults.size < s.settle.faults.size := by
  unfold settle
  split
  · simp [Array.size_pos_iff]
  · split
    · simp
    · simp_all [Array.size_pos_iff]

theorem left_pos {s : State} (h : s.ahead ≠ []) : 0 < s.left := by
  rw [s.left_eq]
  exact List.length_pos_iff.2 h

/-- The next token; behind the last one, always the end of the stream. -/
def next (s : State) : Token :=
  match s.ahead with
  | [] => s.stop.token
  | t :: _ => t.token

def drop (s : State) : State :=
  { s with ahead := s.ahead.tail, left := s.left - 1, left_eq := by simp [s.left_eq] }

@[simp] theorem left_drop (s : State) : s.drop.left = s.left - 1 := rfl

@[simp] theorem faults_drop (s : State) : s.drop.faults = s.faults := rfl

/-- The place behind one more entry. -/
def tell (s : State) (entry : Diagnostic) : State :=
  { s with faults := s.faults.push entry, told := true }

@[simp] theorem faults_tell (s : State) (entry : Diagnostic) :
    (s.tell entry).faults = s.faults.push entry := rfl

/-- From one state to a later one no token is given back and nothing is taken back that
was told, and it is noted if anything was. -/
structure Before (s s' : State) : Prop where
  left_le : s'.left ≤ s.left
  size_le : s.faults.size ≤ s'.faults.size
  told_iff : s'.told = true ↔ s.told = true ∨ s.faults.size < s'.faults.size

namespace Before

theorem refl (s : State) : s.Before s := ⟨Nat.le_refl _, Nat.le_refl _, by simp⟩

theorem trans {s s' s'' : State} (h : s.Before s') (h' : s'.Before s'') : s.Before s'' where
  left_le := Nat.le_trans h'.left_le h.left_le
  size_le := Nat.le_trans h.size_le h'.size_le
  told_iff := by
    have hle := h.size_le
    have hle' := h'.size_le
    rw [h'.told_iff, h.told_iff, or_assoc]
    refine or_congr_right ?_
    omega

theorem settle (s : State) : s.Before s.settle := ⟨by simp, s.size_le_settle, s.told_settle_iff⟩

theorem drop (s : State) : s.Before s.settle.drop :=
  ⟨by simp, s.size_le_settle, s.told_settle_iff⟩

theorem tell (s : State) (entry : Diagnostic) : s.Before (s.tell entry) :=
  ⟨Nat.le_refl _, by simp, by simp [State.tell]⟩

end Before

end State

/-- What a rule leaves behind, having started in `s`. -/
abbrev Outcome (α : Type) (s : State) :=
  { r : Option α × State // s.Before r.2 ∧ (r.1 = none → s.faults.size < r.2.faults.size) }

namespace Outcome

variable {s s' : State}

def result (o : Outcome α s) : Option α := o.1.1

def state (o : Outcome α s) : State := o.1.2

@[inline] def succeed (a : α) (state : State) (before : s.Before state) : Outcome α s :=
  ⟨(some a, state), before, nofun⟩

/-- What was left behind from a later start. -/
@[inline] def since (o : Outcome α s') (h : s.Before s') : Outcome α s :=
  ⟨o.1, h.trans o.2.1, fun hr => Nat.lt_of_le_of_lt h.size_le (o.2.2 hr)⟩

theorem before_of_some {a : α} (h : s.Before (some a, s').2 ∧
    ((some a, s').1 = none → s.faults.size < (some a, s').2.faults.size)) : s.Before s' := h.1

/-- Whatever a rule does, it is noted exactly if more has been told than at its start. -/
theorem told_iff (o : Outcome α s) (h : s.told = false) :
    o.state.told = true ↔ s.faults.size < o.state.faults.size := by
  have htold : o.state.told = true ↔ s.told = true ∨ s.faults.size < o.state.faults.size :=
    o.2.1.told_iff
  simpa [h] using htold

theorem quiet_iff {tokens : TokenStream} (o : Outcome α (.ofStream tokens)) :
    o.state.told = false ↔ o.state.faults = #[] := by
  have htold := o.told_iff rfl
  rw [← Bool.not_eq_true, htold, Nat.not_lt, ← Array.size_eq_zero_iff]
  exact Nat.le_zero

end Outcome

/-- A rule knows which rules are open around it, the innermost first. -/
def Rule (α : Type) := List String → (s : State) → Outcome α s

namespace Rule

def pure (a : α) : Rule α := fun _ s => .succeed a s (.refl s)

def bind (rule : Rule α) (f : α → Rule β) : Rule β := fun trail s =>
  match rule trail s with
  | ⟨(none, s₁), h⟩ => ⟨(none, s₁), h.1, fun _ => h.2 rfl⟩
  | ⟨(some a, s₁), h⟩ => (f a trail s₁).since h.1

instance : Monad Rule where
  pure := pure
  bind := bind

/-- Looks at the next token. -/
def peek : Rule Token := fun _ s => .succeed s.settle.next s.settle (.settle s)

/-- Takes the next token. -/
def take : Rule Token := fun _ s => .succeed s.settle.next s.settle.drop (.drop s)

/-- Tells an error and fails. -/
def fail (position : Position) (fault : Fault) (arguments : List String) : Rule α :=
  fun trail s =>
    let error := Diagnostic.error position fault arguments trail.reverse
    ⟨(none, s.tell error), .tell s error, by simp⟩

instance : Inhabited (Rule α) := ⟨fail default default []⟩

/-- Takes the next token if it is of this kind. -/
def accept (kind : TokenKind) : Rule Bool := do
  if (← peek).kind = kind then
    let _ ← take
    return true
  else return false

/-- Takes the next token, which has to be of this kind. -/
def require (kind : TokenKind) : Rule Token := do
  let token ← peek
  if token.kind = kind then take
  else fail token.position .unexpectedSymbol [kind.text, token.text]

/-- Runs a rule under its name. -/
def within (name : String) (rule : Rule α) : Rule α := fun trail s => rule (name :: trail) s

/-- Goes on for as long as `step` knows how to go on with the next token, which it
takes. -/
def chain (step : α → Token → Option (Rule α)) (a : α) : Rule α := fun trail s =>
  if h : s.ahead = [] then .succeed a s.settle (.settle s)
  else
    match step a s.next with
    | none => .succeed a s.settle (.settle s)
    | some rule =>
      have hlt : s.settle.drop.left < s.left := by
        have := s.left_pos h
        simp
        omega
      match rule trail s.settle.drop with
      | ⟨(none, s₁), h₁⟩ =>
        ⟨(none, s₁), (State.Before.drop s).trans h₁.1,
          fun _ => Nat.lt_of_le_of_lt (State.Before.drop s).size_le (h₁.2 rfl)⟩
      | ⟨(some b, s₁), h₁⟩ => (chain step b trail s₁).since ((State.Before.drop s).trans h₁.1)
termination_by _ s => s.left
decreasing_by exact Nat.lt_of_le_of_lt h₁.1.left_le hlt

end Rule

/-- A tree with its height, so that a node can be refused for its height when it is
made. -/
structure Tall (α : Type) where
  tree : α
  height : Nat

/-- How many statements, expressions and operands of prefix operators may be open
inside one another. -/
def maxNesting : Nat := 128

/-- The height of the tallest node a script may have. -/
def maxHeight : Nat := 512

/-- Makes a node over children of at most the given height. -/
def node (tree : α) (childHeight : Nat) (position : Position) : Rule (Tall α) :=
  if maxHeight < childHeight + 1 then
    Rule.fail position .nestingTooDeep [toString maxHeight]
  else return ⟨tree, childHeight + 1⟩

/-- The three rules that may open inside one another, one level further in. -/
structure Nested where
  statement : Rule (Tall Stmt)
  expression : Rule (Tall Expr)
  operand : Rule (Tall Expr)

/-- Where no level is left to open. -/
def tooDeep : Rule α := do
  Rule.fail (← Rule.peek).position .nestingTooDeep [toString maxNesting]

end StackScript.Grammar
