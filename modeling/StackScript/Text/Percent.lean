import StackScript.Rounding

/-!
Shares of a whole in percent with one decimal place.
-/

namespace StackScript.Text

/-- The share is computed in double precision, and what that gives is rounded with a
half going to the even neighbour. -/
def percent (part whole : Nat) : String :=
  let share : Float := part.toFloat / whole.toFloat * 100
  let bits := share.toBits.toNat
  let exponent := bits >>> 52
  let fraction := bits % (1 <<< 52)
  let significand := if exponent = 0 then fraction else fraction + 1 <<< 52
  let tenths := divToEven ((significand * 10) <<< (exponent - 1)) (1 <<< 1074)
  toString (tenths / 10) ++ "." ++ toString (tenths % 10)

end StackScript.Text
