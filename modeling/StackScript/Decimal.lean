/-!
Decimals: digits and a power of ten. A decimal is written with all its digits in
place or with one digit before the point and an exponent behind.
-/

namespace StackScript

/-- The decimal `digits * 10 ^ exponent`. -/
structure Decimal where
  digits : Nat
  exponent : Int
  deriving DecidableEq, Inhabited

namespace Decimal

/-- The decimal that is spelled `whole.part`. -/
def ofDigits (whole part : List Char) : Decimal :=
  ⟨Nat.ofDigitChars 10 (whole ++ part) 0, -(part.length : Int)⟩

def digitChars (d : Decimal) : List Char := Nat.toDigits 10 d.digits

def zeros (n : Nat) : List Char := List.replicate n '0'

/-- Positional digits with a point before the last `places` of them. -/
def withPoint (digits : List Char) (places : Nat) : List Char :=
  let padded := zeros (places + 1 - digits.length) ++ digits
  padded.take (padded.length - places) ++ '.' :: padded.drop (padded.length - places)

/-- All digits in place, with a point only if there is a fraction. -/
def positional (d : Decimal) : String :=
  match d.exponent with
  | .ofNat e => String.ofList (d.digitChars ++ zeros e)
  | .negSucc e => String.ofList (withPoint d.digitChars (e + 1))

/-- One digit before the point and the exponent behind an `e`. -/
def scientific (d : Decimal) : String :=
  let exponent := d.exponent + (d.digitChars.length - 1 : Nat)
  let mantissa := match d.digitChars with
    | first :: next :: rest => first :: '.' :: next :: rest
    | short => short
  String.ofList mantissa ++ "e" ++ toString exponent

end Decimal

end StackScript
