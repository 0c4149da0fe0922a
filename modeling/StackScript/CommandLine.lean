import StackScript.CommandLine.Request
import StackScript.Code.File
import StackScript.Code.Statistics
import StackScript.Engine
import StackScript.Token.Listing
import StackScript.Token.Reader

/-!
The command line. The arguments settle what is asked for; the file settles what
comes of it short of running a script; and a run adds what the script prints.
-/

namespace StackScript

namespace CommandLine

/-- The end of a file's name behind its last dot, if there is more before it. -/
def extension? (path : String) : Option String :=
  let parts := (path.splitOn "/").filter fun part => part ≠ "" ∧ part ≠ "."
  match parts.getLast? with
  | none => none
  | some name =>
    let reversed := name.toList.reverse
    let ending := reversed.takeWhile (· ≠ '.')
    match reversed.dropWhile (· ≠ '.') with
    | '.' :: _ :: _ => if name = ".." then none else some (String.ofList ending.reverse)
    | _ => none

def isCodeFile (path : String) : Bool := extension? path = some "felb"

/-- What is shown, and how the program ends. -/
structure Outcome where
  status : Nat := 0
  output : String := ""
  errors : String := ""
  /-- A file of the directory that was written. -/
  written : Option (String × List UInt8) := none
  deriving DecidableEq, Inhabited

/-- What is left to do once the file has been read. -/
inductive Plan where
  | finish (outcome : Outcome)
  | write (output path : String) (bytes : List UInt8)
  | run (output : String) (code : Code)

/-- The end of a program that has this to tell. -/
def reported (output : String) (faults : Array Diagnostic) : Outcome :=
  if faults.isEmpty then { output } else { status := 1, output, errors := Log.text ⟨faults⟩ }

def failed (errors : String) (output : String := "") : Outcome :=
  { status := 1, output, errors := errors ++ "\n" }

def listTokens (o : Options) (text : String) : Outcome :=
  let (tokens, reader) := (TokenReader.ofText o.file text).readRest
  let style : TokenListing := { color := o.color, literals := !o.pretty }
  reported (style.text tokens.toList) reader.held.entries

def printTree (o : Options) (text : String) : Outcome :=
  let script := Script.read o.file text
  match script.result with
  | some tree => reported tree.text script.faults
  | none => reported "" script.faults

/-- What to do with code, however it came about. -/
def planCode (o : Options) (code : Code) : Plan :=
  let output := (if o.listing then code.report else "") ++
    if o.statistics then code.statistics else ""
  match o.emit with
  | some path => .write output path code.toBytes
  | none => .run output code

def planText (o : Options) (text : String) : Plan :=
  if o.tokens then .finish (listTokens o text)
  else if o.tree then .finish (printTree o text)
  else
    let code := Code.ofText o.file text
    match code.result with
    | some c => planCode o c
    | none => .finish (reported "" code.faults)

/-- What to do with the content of the file. -/
def plan (o : Options) (content : Except FileError (List UInt8)) : Plan :=
  let unreadable (error : FileError) : Plan :=
    .finish (failed ("Failed to read '" ++ o.file ++ "': " ++ error.message))
  match content with
  | .error error => unreadable error
  | .ok bytes =>
    if isCodeFile o.file then
      match Code.ofBytes bytes with
      | .ok code => planCode o code
      | .error fault => .finish (failed (o.file ++ ": " ++ fault.message))
    else
      match Directory.decode bytes with
      | .ok text => planText o text
      | .error error => unreadable error

def unwritable (output path : String) (error : FileError) : Outcome :=
  failed ("Failed to write '" ++ path ++ "': " ++ error.message) output

/-- The function that scripts print with: the texts of its arguments and the end of
the line. What has been printed is the state of the host. -/
def print : HostFunction String := fun call printed =>
  ⟨call.stack, 0, printed ++ call.text ++ "\n"⟩

def engine (o : Options) (printed : String) : Engine String :=
  { limits := { steps := o.maxSteps }, host := printed : Engine String }.setFunction "print" print

/-- Runs a script to its end, and ends as it does. -/
def runCode (o : Options) (patience : Nat) (output : String) (code : Code) : Outcome :=
  let (e, log) := (engine o output).runCode patience code {}
  reported e.host log.entries

/-- The program in a directory. -/
def perform (o : Options) (patience : Nat) (d : Directory) : Outcome :=
  match plan o (d.readBytes o.file) with
  | .finish outcome => outcome
  | .run output code => runCode o patience output code
  | .write output path bytes =>
    match d.writable path with
    | .ok name => { output, written := name.map (·, bytes) }
    | .error error => unwritable output path error

def outcome (arguments : List String) (patience : Nat) (d : Directory) : Outcome :=
  match request arguments with
  | .perform options => perform options patience d
  | .version => { output := versionText }
  | .badUsage => { status := 2 }

end CommandLine

end StackScript
