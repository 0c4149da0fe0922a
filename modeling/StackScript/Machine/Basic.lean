import StackScript.Machine.Host
import StackScript.Code.Check
import StackScript.Diagnostic

/-!
The machine that runs code: a stack of values, the calls of script functions that
are open, and global variables by name. Limits keep a run from growing without end.
-/

namespace StackScript

variable {σ : Type}

structure Limits where
  callDepth : Nat := 1000
  stackSize : Nat := 10000
  steps : Option Nat := none
  deriving DecidableEq, Inhabited

/-- An open call of a script function. -/
structure Frame where
  returnTo : Nat
  /-- The height of the stack below the arguments. -/
  base : Nat
  /-- Whether the caller wants a value. -/
  wantsValue : Bool
  deriving DecidableEq, Inhabited

/-- Variables with their values, in the order of their first definition. -/
structure Globals where
  entries : List (String × Value) := []
  deriving DecidableEq, Inhabited

namespace Globals

def find? (g : Globals) (name : String) : Option Value := g.entries.lookup name

def putIn (name : String) (v : Value) : List (String × Value) → List (String × Value)
  | [] => [(name, v)]
  | entry :: rest => if entry.1 = name then (name, v) :: rest else entry :: putIn name v rest

/-- Gives a variable a value, whether it had one or not. -/
def put (g : Globals) (name : String) (v : Value) : Globals := ⟨putIn name v g.entries⟩

theorem find?_putIn (name other : String) (v : Value) (entries : List (String × Value)) :
    (putIn name v entries).lookup other =
      if other = name then some v else entries.lookup other := by
  induction entries with
  | nil => by_cases h : other = name <;> simp [putIn, List.lookup_cons, h, beq_eq_false_iff_ne.2]
  | cons entry rest ih =>
    obtain ⟨key, w⟩ := entry
    by_cases hk : key = name
    · subst hk
      by_cases h : other = key <;> simp [putIn, List.lookup_cons, h, beq_eq_false_iff_ne.2]
    · by_cases h : other = key
      · simp [putIn, h, hk]
      · simp [putIn, List.lookup_cons, hk, h, beq_eq_false_iff_ne.2, ih]

theorem find?_put (g : Globals) (name other : String) (v : Value) :
    (g.put name v).find? other = if other = name then some v else g.find? other :=
  find?_putIn name other v g.entries

end Globals

structure Machine (σ : Type) where
  pc : Nat := 0
  stack : Array Value := #[]
  frames : Array Frame := #[]
  globals : Globals := {}
  /-- How many instructions have been started. -/
  steps : Nat := 0
  /-- What the host functions share. -/
  host : σ
  deriving DecidableEq

/-- What a machine runs, with whom and how far. -/
structure Setting (σ : Type) where
  code : Code
  hosts : Hosts σ
  limits : Limits := {}

/-- What one instruction comes to. -/
inductive Progress (σ : Type) where
  | next (m : Machine σ)
  | finished (m : Machine σ)
  | failed (m : Machine σ) (report : Array Diagnostic)

namespace Machine

/-- The machine at the start of a run. What earlier runs left in variables stays. -/
def reset (m : Machine σ) : Machine σ :=
  { m with pc := 0, stack := #[], frames := #[], steps := 0 }

end Machine

end StackScript
