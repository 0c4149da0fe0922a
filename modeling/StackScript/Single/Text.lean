import StackScript.Single.Basic

/-!
Text of single precision numbers. A number is written with the fewest digits that
read back as the same number; among those the nearest ones, and of two equally near
the larger. Text is read to the nearest number.
-/

namespace StackScript.Single

/-- The magnitude as a fraction. -/
def fraction (x : Single) : Nat × Nat := (x.significand <<< x.scale, 1 <<< 149)

/-- The multiple of `10 ^ exponent` that reads back as `x`, the nearer one if
both neighbours of `x` do. -/
def onGrid (x : Single) (exponent : Int) : Option Decimal :=
  let (num, den) := x.fraction
  let num := num * Nat.pow 10 (-exponent).toNat
  let den := den * Nat.pow 10 exponent.toNat
  let below : Decimal := ⟨num / den, exponent⟩
  let above : Decimal := ⟨num / den + 1, exponent⟩
  let nearer := if 2 * (num % den) < den then [below, above] else [above, below]
  nearer.find? fun d => ofDecimal d == x

/-- An exponent whose power of ten is larger than the magnitude of `x`. -/
def topExponent (x : Single) : Int :=
  ((Nat.log2 x.significand + x.scale : Nat) - 148 : Int) * 30103 / 100000 + 1

/-- The coarsest decimal grid with a number that reads back as `x`. On the grid
of `10 ^ (-149)` every finite number lies exactly. -/
def shortest (x : Single) : Decimal :=
  if x.isZero then ⟨0, 0⟩
  else
    let top := x.topExponent
    ((List.range 250).findSome? fun (i : Nat) => x.abs.onGrid (top - i)).getD ⟨0, 0⟩

def signed (x : Single) (body : String) : String :=
  if x.isNegative then "-" ++ body else body

/-- The text of what is no decimal, or else the given one. -/
def textOr (x : Single) (decimal : Unit → String) : String :=
  if x.isNaN then "NaN" else signed x (if x.isFinite then decimal () else "inf")

/-- All digits in place, never an exponent: `2`, `-0`, `0.1`. -/
def text (x : Single) : String := x.textOr fun _ => x.shortest.positional

/-- Whether the positional text of a number has too many zeros to be read well. -/
def isLong (x : Single) : Bool :=
  !x.isZero && (x.magnitude < (ofDecimal ⟨1, -4⟩).magnitude ||
    (ofDecimal ⟨1, 16⟩).magnitude ≤ x.magnitude)

/-- Text that shows a number as a number: a whole one keeps `.0`, and a very
large or very small one has an exponent. -/
def exactText (x : Single) : String :=
  x.textOr fun _ =>
    let d := x.shortest
    if x.isLong then d.scientific
    else if 0 ≤ d.exponent then d.positional ++ ".0"
    else d.positional

/-- An exponent in decimal digits with an optional sign. -/
def readExponent (cs : List Char) : Option Int :=
  let (negative, digits) := match cs with
    | '-' :: r => (true, r)
    | '+' :: r => (false, r)
    | r => (false, r)
  let n : Int := Nat.ofDigitChars 10 digits 0
  if digits.isEmpty || !digits.all Char.isDigit then none
  else some (if negative then -n else n)

def readUnsigned (cs : List Char) : Option Single :=
  if cs = "inf".toList then some infinity
  else if cs = "NaN".toList then some nan
  else
    let whole := cs.takeWhile Char.isDigit
    let (part, rest) := match cs.dropWhile Char.isDigit with
      | '.' :: r => (r.takeWhile Char.isDigit, r.dropWhile Char.isDigit)
      | r => ([], r)
    let exponent := match rest with
      | [] => some 0
      | 'e' :: r | 'E' :: r => readExponent r
      | _ => none
    let d := Decimal.ofDigits whole part
    if whole.isEmpty && part.isEmpty then none
    else exponent.map fun e => ofDecimal ⟨d.digits, d.exponent + e⟩

/-- Reads digits with an optional sign, point and exponent, or `inf` or `NaN`. -/
def ofText? (text : String) : Option Single :=
  match text.toList with
  | '-' :: cs => (readUnsigned cs).map neg
  | '+' :: cs => readUnsigned cs
  | cs => readUnsigned cs

end StackScript.Single
