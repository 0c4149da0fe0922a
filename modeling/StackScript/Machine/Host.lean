import StackScript.Value

/-!
Functions that the host gives to a script. A host function sees the whole stack,
knows where its arguments lie, may do to the stack as it likes, and answers with how
many values it has pushed. The state that host functions share is the host's own.
-/

namespace StackScript

variable {σ : Type}

/-- A call as the host sees it: `count` arguments that lie from `base` upwards. -/
structure HostCall where
  stack : Array Value
  base : Nat
  count : Nat
  deriving Inhabited

namespace HostCall

/-- An argument by its place, counted from the first. -/
def argument? (c : HostCall) (i : Nat) : Option Value :=
  if i < c.count then c.stack[c.base + i]? else none

/-- The arguments, as far as the stack still reaches. -/
def arguments (c : HostCall) : List Value := (c.stack.extract c.base (c.base + c.count)).toList

/-- The texts of the arguments, one after the other. -/
def text (c : HostCall) : String := String.join (c.arguments.map Value.text)

end HostCall

structure HostReply (σ : Type) where
  stack : Array Value
  pushed : Nat
  state : σ

abbrev HostFunction (σ : Type) := HostCall → σ → HostReply σ

/-- Host functions by name. -/
structure Hosts (σ : Type) where
  functions : List (String × HostFunction σ) := []

namespace Hosts

def find? (hosts : Hosts σ) (name : String) : Option (HostFunction σ) :=
  hosts.functions.lookup name

/-- Gives a function a name, in place of what had it before. -/
def insert (hosts : Hosts σ) (name : String) (f : HostFunction σ) : Hosts σ :=
  ⟨(name, f) :: hosts.functions.filter fun entry => entry.1 != name⟩

end Hosts

end StackScript
