/-!
A directory of files, as far as a script program needs one: files by name, and the
directory itself under the names that lead back to it. Of other directories nothing is
known but that they are there.
-/

namespace StackScript

/-- Why a file cannot be read or written. -/
inductive FileError where
  | notFound
  | permissionDenied
  | notDirectory
  | isDirectory
  | nameTooLong
  /-- The path holds the character of number zero, which ends a path. -/
  | nulInPath
  | notText
  deriving DecidableEq, Inhabited

def FileError.message : FileError → String
  | notFound => "No such file or directory (os error 2)"
  | permissionDenied => "Permission denied (os error 13)"
  | notDirectory => "Not a directory (os error 20)"
  | isDirectory => "Is a directory (os error 21)"
  | nameTooLong => "File name too long (os error 36)"
  | nulInPath => "file name contained an unexpected NUL byte"
  | notText => "stream did not contain valid UTF-8"

structure Directory where
  files : List (String × List UInt8) := []
  deriving Inhabited

namespace Directory

/-- Names of at most 255 bytes can be those of files. -/
def isName (name : String) : Bool := name.utf8ByteSize ≤ 255

/-- Paths of at most 4095 bytes can be followed. -/
def isPath (path : String) : Bool := path.utf8ByteSize ≤ 4095

def contains (d : Directory) (name : String) : Bool := (d.files.lookup name).isSome

/-- Why a name cannot be followed like that of a directory. -/
def followError (d : Directory) (name : String) : FileError :=
  if d.contains name then .notDirectory
  else if isName name then .notFound
  else .nameTooLong

/-- Where a path leads. -/
inductive Place where
  | file (name : String)
  /-- A name that is free. -/
  | vacant (name : String)
  /-- A name in another directory. -/
  | elsewhere
  | directory
  /-- A name with slashes behind it, which no directory has for the reason given. -/
  | slashed (error : FileError)
  | nowhere (error : FileError)
  deriving DecidableEq, Inhabited

/-- Follows a path from a directory, part by part. An empty part or a dot leads nowhere
else, and two dots lead outside; a name leads to a file, and can be followed by slashes
at most. -/
def walk (d : Directory) (outside : Bool) : List String → Place
  | [] => .directory
  | part :: rest =>
    if part = "" ∨ part = "." then walk d outside rest
    else if part = ".." then walk {} true rest
    else if rest.isEmpty then
      if d.contains part then .file part
      else if !isName part then .nowhere .nameTooLong
      else if outside then .elsewhere
      else .vacant part
    else if rest.all (· = "") then .slashed (d.followError part)
    else .nowhere (d.followError part)

/-- Follows a path. What is wrong with it as a whole is told before any part of it is
looked at. -/
def locate (d : Directory) (path : String) : Place :=
  if path.toList.contains '\x00' then .nowhere .nulInPath
  else if path = "" then .nowhere .notFound
  else if !isPath path then .nowhere .nameTooLong
  else if path.startsWith "/" then walk {} true (path.splitOn "/")
  else d.walk false (path.splitOn "/")

def readBytes (d : Directory) (path : String) : Except FileError (List UInt8) :=
  match d.locate path with
  | .file name => .ok ((d.files.lookup name).getD [])
  | .vacant _ | .elsewhere => .error .notFound
  | .directory => .error .isDirectory
  | .slashed error | .nowhere error => .error error

/-- Bytes as text. -/
def decode (bytes : List UInt8) : Except FileError String :=
  match String.fromUTF8? ⟨bytes.toArray⟩ with
  | some text => .ok text
  | none => .error .notText

def readText (d : Directory) (path : String) : Except FileError String :=
  (d.readBytes path).bind decode

/-- The name under which a file can be written, if it becomes one of this directory.
Slashes behind a name ask for a directory, so nothing can be written there. -/
def writable (d : Directory) (path : String) : Except FileError (Option String) :=
  match d.locate path with
  | .file name | .vacant name => .ok (some name)
  | .elsewhere => .ok none
  | .directory | .slashed _ => .error .isDirectory
  | .nowhere error => .error error

end Directory

end StackScript
