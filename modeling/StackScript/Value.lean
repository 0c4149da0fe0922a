import StackScript.Single.Text
import StackScript.Text.Quoted

/-!
What a script computes with. A function is known by the address of its first
instruction. Equality of values as data compares numbers by their patterns;
`Value.same` compares them as numbers, so that a NaN differs from itself.
-/

namespace StackScript

inductive Value where
  | null
  | bool (b : Bool)
  | int (i : Int32)
  | number (x : Single)
  | string (s : String)
  | function (entry : UInt32)
  deriving DecidableEq, Inhabited

namespace Value

def typeName : Value → String
  | null => "null"
  | bool _ => "bool"
  | int _ => "int"
  | number _ => "number"
  | string _ => "string"
  | function _ => "function"

/-- Only `null` and `false` are not. -/
def isTruthy : Value → Bool
  | null => false
  | bool b => b
  | _ => true

def isNull : Value → Bool
  | null => true
  | _ => false

def int? : Value → Option Int32
  | int i => some i
  | _ => none

def string? : Value → Option String
  | string s => some s
  | _ => none

/-- Ints round to numbers; nothing else becomes one. -/
def number? : Value → Option Single
  | int i => some (Single.ofInt i.toInt)
  | number x => some x
  | _ => none

def same : Value → Value → Bool
  | number x, number y => x.equal y
  | a, b => a == b

def boolText (b : Bool) : String := if b then "true" else "false"

/-- The text a script prints: strings without quotes. -/
def text : Value → String
  | null => "null"
  | bool b => boolText b
  | int i => toString i.toInt
  | number x => x.text
  | string s => s
  | function entry => "<function @" ++ toString entry.toNat ++ ">"

/-- The text that tells every value from every other. -/
def exactText : Value → String
  | null => "Null"
  | bool b => "Bool(" ++ boolText b ++ ")"
  | int i => "Int(" ++ toString i.toInt ++ ")"
  | number x => "Number(" ++ x.exactText ++ ")"
  | string s => "String(" ++ Text.quote s ++ ")"
  | function entry => "Function(" ++ toString entry.toNat ++ ")"

def isDigitOrMinus (c : Char) : Bool := c.isDigit || c == '-'

/-- The spelling of a literal in a script. A whole number keeps a fraction, so
that it is not read as an int. -/
def literalText : Value → String
  | string s => Text.escape s
  | number x => if x.text.toList.all isDigitOrMinus then x.text ++ ".0" else x.text
  | v => v.text

end Value

end StackScript
