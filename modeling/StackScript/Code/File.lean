import StackScript.Code.Check
import StackScript.Bytes.Writer
import StackScript.Bytes.Reader

/-!
Code files. A file starts with four letters and the version of the format; behind
the code it may have anything. What is read is checked before it is used.
-/

namespace StackScript

namespace Code

/-- `FELB`. -/
def magic : List UInt8 := [0x46, 0x45, 0x4c, 0x42]

def formatVersion : Nat := 1

def ofOrigin (o : Origin) : List UInt8 :=
  Bytes.ofPosition o.position ++ Bytes.ofList Bytes.ofPosition o.operands

def body (code : Code) : List UInt8 :=
  Bytes.ofList (fun c => Bytes.ofWord c.word) code.instructions.toList ++
    Bytes.ofList Bytes.ofText code.strings.toList ++
    Bytes.ofList Bytes.ofInt code.ints.toList ++
    Bytes.ofList Bytes.ofSingle code.numbers.toList ++
    Bytes.ofList ofOrigin code.origins.toList

/-- The version in two bytes, the lower first. -/
def toBytes (code : Code) : List UInt8 :=
  magic ++ [UInt8.ofNat formatVersion, UInt8.ofNat (formatVersion / 256)] ++ code.body

inductive FileFault where
  | badMagic
  | unsupportedVersion (version : Nat)
  | malformed (fault : Bytes.ReadFault)
  | invalid (fault : CodeFault)
  deriving DecidableEq, Inhabited

def FileFault.message : FileFault → String
  | badMagic => "not a fel bytecode file"
  | unsupportedVersion version => "unsupported bytecode version " ++ toString version
  | malformed fault => "malformed bytecode: " ++ fault.message
  | invalid fault => "invalid bytecode: " ++ fault.message

open Bytes Reader in
def readCommand : Reader Command := do
  match Command.ofWord? (← word) with
  | .ok command => return command
  | .error _ => fail .badValue

open Bytes Reader in
def readOrigin : Reader Origin := do
  let p ← position
  let operands ← array position
  return ⟨p, operands.toList⟩

open Bytes Reader in
def readBody : Reader Code := do
  let instructions ← array readCommand
  let strings ← array text
  let ints ← array int
  let numbers ← array single
  let origins ← array readOrigin
  return { instructions, strings, ints, numbers, origins }

def ofBytes (bytes : List UInt8) : Except FileFault Code :=
  match bytes.drop magic.length with
  | lo :: hi :: rest =>
    if bytes.take magic.length ≠ magic then .error .badMagic
    else
      let version := lo.toNat + 256 * hi.toNat
      if version ≠ formatVersion then .error (.unsupportedVersion version)
      else
        match readBody rest with
        | .error fault => .error (.malformed fault)
        | .ok (code, _) =>
          match code.check with
          | .error fault => .error (.invalid fault)
          | .ok _ => .ok code
  | _ => .error .badMagic

end Code

end StackScript
