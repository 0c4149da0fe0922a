import StackScript.CommandLine

/-!
The program itself: reads the file that the arguments name, and does what is left to
do. A script is run in stretches, so that what it prints appears as it goes.
-/

namespace StackScript.Main

open CommandLine

def fileError : IO.Error → FileError
  | .noFileOrDirectory .. | .noSuchThing .. => .notFound
  | .permissionDenied .. => .permissionDenied
  | .inappropriateType _ 20 _ => .notDirectory
  | .invalidArgument _ 36 _ => .nameTooLong
  | _ => .isDirectory

def read (path : String) : IO (Except FileError (List UInt8)) := do
  try
    let handle ← IO.FS.Handle.mk path .read
    return .ok (← handle.readBinToEnd).toList
  catch e => return .error (fileError e)

def finish (o : Outcome) : IO UInt32 := do
  IO.print o.output
  IO.eprint o.errors
  return UInt32.ofNat o.status

partial def run (setting : Setting String) (m : Machine String) : IO UInt32 := do
  match Machine.proceed setting 4096 m with
  | .ended m report => finish (reported m.host report)
  | .going m =>
    IO.print m.host
    (← IO.getStdout).flush
    run setting { m with host := "" }

def perform (o : Options) : IO UInt32 := do
  match plan o (← read o.file) with
  | .finish outcome => finish outcome
  | .write output path bytes =>
    try
      IO.FS.writeBinFile path ⟨bytes.toArray⟩
      finish { output }
    catch e => finish (unwritable output path (fileError e))
  | .run output code =>
    let e := engine o output
    let setting : Setting String := { code, hosts := e.hosts, limits := e.limits }
    match Machine.run setting 0 { host := e.host } with
    | .ended m report => finish (reported m.host report)
    | .going m => run setting m

end StackScript.Main

def main (arguments : List String) : IO UInt32 :=
  match StackScript.CommandLine.request arguments with
  | .perform options => StackScript.Main.perform options
  | .version => StackScript.Main.finish { output := StackScript.CommandLine.versionText }
  | .badUsage => StackScript.Main.finish { status := 2, errors := "error: invalid arguments\n" }
