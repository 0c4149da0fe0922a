import StackScript.Decimal
import StackScript.Rounding

/-!
Single precision numbers by their bit patterns. Apart from the sign a finite
pattern is a magnitude, and patterns are ordered as the numbers they stand for:
the magnitude holds a significand and a scale with the value
`significand * 2 ^ scale / 2 ^ 149`. Rounding a ratio of naturals to this grid is
one formula for ordinary, small and overflowing results.
-/

namespace StackScript

structure Single where
  bits : UInt32
  deriving DecidableEq, Inhabited

namespace Single

def zero : Single := ⟨0⟩

def one : Single := ⟨0x3f800000⟩

def infinity : Single := ⟨0x7f800000⟩

def nan : Single := ⟨0x7fc00000⟩

def isNegative (x : Single) : Bool := 0x80000000 ≤ x.bits.toNat

/-- The pattern without its sign. -/
def magnitude (x : Single) : Nat := x.bits.toNat % 0x80000000

def isNaN (x : Single) : Bool := 0x7f800000 < x.magnitude

def isFinite (x : Single) : Bool := x.magnitude < 0x7f800000

def isZero (x : Single) : Bool := x.magnitude == 0

def significand (x : Single) : Nat :=
  if x.magnitude < 0x800000 then x.magnitude else x.magnitude % 0x800000 + 0x800000

def scale (x : Single) : Nat := x.magnitude / 0x800000 - 1

def neg (x : Single) : Single := ⟨x.bits ^^^ 0x80000000⟩

def abs (x : Single) : Single := ⟨x.bits &&& 0x7fffffff⟩

/-- The number nearest to `num / den`, a tie going to the even significand. What
is too large becomes infinity. -/
def ofRatio (num den : Nat) : Single :=
  let num := num <<< 149
  let scale := Nat.log2 (num / den) - 23
  let magnitude := scale * 0x800000 + divToEven num (den <<< scale)
  ⟨UInt32.ofNat (min magnitude 0x7f800000)⟩

/-- The number nearest to a decimal. -/
def ofDecimal (d : Decimal) : Single :=
  match d.exponent with
  | .ofNat e => ofRatio (d.digits * Nat.pow 10 e) 1
  | .negSucc e => ofRatio d.digits (Nat.pow 10 (e + 1))

def ofInt (i : Int) : Single :=
  if i < 0 then (ofRatio i.natAbs 1).neg else ofRatio i.natAbs 1

/-- The place of a pattern on the number line; both zeros are at the origin. -/
def rank (x : Single) : Int :=
  if x.isNegative then -(x.magnitude : Int) else x.magnitude

def equal (x y : Single) : Bool := !x.isNaN && !y.isNaN && x.rank == y.rank

def less (x y : Single) : Bool := !x.isNaN && !y.isNaN && x.rank < y.rank

def lessEqual (x y : Single) : Bool := !x.isNaN && !y.isNaN && x.rank ≤ y.rank

def viaFloat (f : Float32 → Float32 → Float32) (x y : Single) : Single :=
  ⟨(f (Float32.ofBits x.bits) (Float32.ofBits y.bits)).toBits⟩

def add : Single → Single → Single := viaFloat (· + ·)

def sub : Single → Single → Single := viaFloat (· - ·)

def mul : Single → Single → Single := viaFloat (· * ·)

def div : Single → Single → Single := viaFloat (· / ·)

end Single

end StackScript
