import StackScript.Bytes.Varint
import StackScript.Position
import StackScript.Single.Basic

/-!
Data as bytes. Naturals and lengths are varints, text is its length and its bytes,
a list is its length and its elements, and the fields of a structure follow one
another.
-/

namespace StackScript.Bytes

variable {α : Type}

def ofWord (w : UInt32) : List UInt8 := varint w.toNat

def ofInt (i : Int32) : List UInt8 := varint (zigzag i.toInt)

/-- The four bytes of the pattern, the lowest first. -/
def ofSingle (x : Single) : List UInt8 :=
  let n := x.bits.toNat
  [UInt8.ofNat n, UInt8.ofNat (n / 0x100), UInt8.ofNat (n / 0x10000),
    UInt8.ofNat (n / 0x1000000)]

def ofBool (b : Bool) : List UInt8 := [if b then 1 else 0]

def ofText (s : String) : List UInt8 := varint s.utf8ByteSize ++ s.toUTF8.toList

def ofList (write : α → List UInt8) (xs : List α) : List UInt8 :=
  varint xs.length ++ xs.flatMap write

def ofOption (write : α → List UInt8) : Option α → List UInt8
  | none => [0]
  | some a => 1 :: write a

def ofPosition (p : Position) : List UInt8 := ofText p.file ++ ofWord p.line ++ ofWord p.column

end StackScript.Bytes
