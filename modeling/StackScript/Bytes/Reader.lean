import StackScript.Bytes.Varint
import StackScript.Position
import StackScript.Single.Basic

/-!
Data out of bytes. A reader takes what it needs from the front and leaves the rest;
the first thing that is wrong, in the order of the bytes, is what it tells.
-/

namespace StackScript.Bytes

variable {α β : Type}

inductive ReadFault where
  | endOfBytes
  | badVarint
  | badText
  | badBool
  | badOption
  /-- A number that its type has no value for, that of no alternative too. -/
  | badValue
  deriving DecidableEq, Inhabited

def ReadFault.message : ReadFault → String
  | endOfBytes => "Hit the end of buffer, expected more data"
  | badVarint =>
    "Found a varint that didn't terminate. Is the usize too big for this platform?"
  | badText => "Tried to parse invalid utf-8"
  | badBool => "Found a bool that wasn't 0 or 1"
  | badOption => "Found an Option discriminant that wasn't 0 or 1"
  | badValue => "Serde Deserialization Error"

def Reader (α : Type) := List UInt8 → Except ReadFault (α × List UInt8)

namespace Reader

def pure (a : α) : Reader α := fun bytes => .ok (a, bytes)

def bind (r : Reader α) (f : α → Reader β) : Reader β := fun bytes =>
  match r bytes with
  | .ok (a, rest) => f a rest
  | .error fault => .error fault

instance : Monad Reader where
  pure := pure
  bind := bind

def fail (fault : ReadFault) : Reader α := fun _ => .error fault

def byte : Reader UInt8
  | [] => .error .endOfBytes
  | b :: rest => .ok (b, rest)

/-- A varint of at most so many bytes; one of full length ends with a byte of at
most `last`. -/
def varint (last : Nat) : Nat → Reader Nat
  | 0 => fail .badVarint
  | more + 1 => do
    let b ← byte
    if b.toNat < 128 then
      if more = 0 ∧ last < b.toNat then fail .badVarint else return b.toNat
    else return b.toNat - 128 + 128 * (← varint last more)

def word : Reader UInt32 := do return UInt32.ofNat (← varint 15 5)

def length : Reader Nat := varint 1 10

def int : Reader Int32 := do return Int32.ofInt (unzigzag (← varint 15 5))

def single : Reader Single := do
  let b₀ ← byte
  let b₁ ← byte
  let b₂ ← byte
  let b₃ ← byte
  return ⟨UInt32.ofNat (b₀.toNat + b₁.toNat * 0x100 + b₂.toNat * 0x10000 +
    b₃.toNat * 0x1000000)⟩

def bool : Reader Bool := do
  match (← byte).toNat with
  | 0 => return false
  | 1 => return true
  | _ => fail .badBool

/-- Exactly so many bytes. -/
def bytes (n : Nat) : Reader (List UInt8) := fun all =>
  if (all.take n).length = n then .ok (all.take n, all.drop n) else .error .endOfBytes

def text : Reader String := do
  match String.fromUTF8? ⟨(← bytes (← length)).toArray⟩ with
  | some s => return s
  | none => fail .badText

/-- So many more of the same, behind those already read. -/
def many (r : Reader α) (before : Array α) : Nat → Reader (Array α)
  | 0 => pure before
  | n + 1 => fun bytes =>
    match r bytes with
    | .ok (a, rest) => many r (before.push a) n rest
    | .error fault => .error fault

def array (r : Reader α) : Reader (Array α) := do many r #[] (← length)

/-- One of a list of alternatives, by its number. -/
def alternative (all : List α) : Reader α := do
  match all[← varint 15 5]? with
  | some a => return a
  | none => fail .badValue

def option (r : Reader α) : Reader (Option α) := do
  match (← byte).toNat with
  | 0 => return none
  | 1 => return some (← r)
  | _ => fail .badOption

def position : Reader Position := do return ⟨← text, ← word, ← word⟩

end Reader

end StackScript.Bytes
