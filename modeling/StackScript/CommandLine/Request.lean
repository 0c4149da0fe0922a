/-!
What the arguments of the program ask for: a file, switches, and two options with a
value. Nothing may be said twice, and a file has to be named.
-/

namespace StackScript

namespace CommandLine

structure Options where
  file : String
  tokens : Bool := false
  color : Bool := true
  pretty : Bool := false
  tree : Bool := false
  listing : Bool := false
  statistics : Bool := false
  emit : Option String := none
  maxSteps : Option Nat := none
  deriving DecidableEq, Inhabited

inductive Request where
  | perform (options : Options)
  | version
  | badUsage
  deriving DecidableEq, Inhabited

def versionText : String := "fel 0.1.0\n"

/-- The switches, each under every name that it goes by. -/
inductive Switch where
  | tokens
  | noColor
  | pretty
  | tree
  | listing
  | statistics
  deriving DecidableEq, Inhabited

def Switch.ofArgument? : String → Option Switch
  | "--tokens" => some .tokens
  | "--no-color" => some .noColor
  | "--pretty" => some .pretty
  | "--ast" => some .tree
  | "--bc" | "--bytecode" => some .listing
  | "--stats" => some .statistics
  | _ => none

/-- What the arguments up to some place have said. -/
structure Draft where
  switches : List Switch := []
  file : Option String := none
  emit : Option String := none
  maxSteps : Option Nat := none
  deriving DecidableEq, Inhabited

namespace Draft

/-- Nothing may be said twice. -/
def addSwitch (p : Draft) (s : Switch) : Option Draft :=
  if p.switches.contains s then none else some { p with switches := s :: p.switches }

def addFile (p : Draft) (file : String) : Option Draft :=
  if p.file.isSome ∨ file = "" then none else some { p with file := some file }

def addEmit (p : Draft) (path : String) : Option Draft :=
  if p.emit.isSome ∨ path = "" then none else some { p with emit := some path }

/-- A number of steps in decimal digits that fits into 64 bits. -/
def addMaxSteps (p : Draft) (text : String) : Option Draft :=
  let digits := match text.toList with
    | '+' :: cs => cs
    | cs => cs
  let n := Nat.ofDigitChars 10 digits 0
  if p.maxSteps.isSome ∨ digits.isEmpty ∨ !digits.all Char.isDigit then none
  else if 0x10000000000000000 ≤ n then none
  else some { p with maxSteps := some n }

def options? (p : Draft) : Option Options :=
  p.file.map fun file =>
    { file
      tokens := p.switches.contains .tokens
      color := !p.switches.contains .noColor
      pretty := p.switches.contains .pretty
      tree := p.switches.contains .tree
      listing := p.switches.contains .listing
      statistics := p.switches.contains .statistics
      emit := p.emit
      maxSteps := p.maxSteps }

end Draft

/-- Whether an argument is taken for an option. A lone dash is a name. -/
def looksLikeOption (argument : String) : Bool := argument.startsWith "-" && argument != "-"

/-- Letters behind one dash are read one by one, and `V` acts at once. -/
def asksForVersion (argument : String) : Bool :=
  argument = "--version" || argument.startsWith "-V"

/-- The value of an option that is written as `name=value`. -/
def valueOf? (name argument : String) : Option String :=
  let head := name ++ "="
  if argument.startsWith head then
    some (String.ofList (argument.toList.drop head.length))
  else none

/-- Goes on if nothing was wrong so far. -/
def orBadUsage (p : Option Draft) (next : Draft → Request) : Request :=
  match p with
  | some p => next p
  | none => .badUsage

/-- Reads arguments in order. Behind `--` all of them are names of files. -/
def readArguments (p : Draft) (onlyFiles : Bool) : List String → Request
  | [] => match p.options? with
    | some options => .perform options
    | none => .badUsage
  | argument :: rest =>
    if onlyFiles ∨ !looksLikeOption argument then
      orBadUsage (p.addFile argument) fun p => readArguments p onlyFiles rest
    else if argument = "--" then readArguments p true rest
    else if asksForVersion argument then .version
    else
      match Switch.ofArgument? argument, valueOf? "--emit" argument,
          valueOf? "--max-steps" argument with
      | some s, _, _ => orBadUsage (p.addSwitch s) fun p => readArguments p onlyFiles rest
      | _, some path, _ => orBadUsage (p.addEmit path) fun p => readArguments p onlyFiles rest
      | _, _, some n => orBadUsage (p.addMaxSteps n) fun p => readArguments p onlyFiles rest
      | none, none, none =>
        match rest with
        | [] => .badUsage
        | value :: rest =>
          if looksLikeOption value then .badUsage
          else if argument = "--emit" then
            orBadUsage (p.addEmit value) fun p => readArguments p onlyFiles rest
          else if argument = "--max-steps" then
            orBadUsage (p.addMaxSteps value) fun p => readArguments p onlyFiles rest
          else .badUsage

def request (arguments : List String) : Request := readArguments {} false arguments

end CommandLine

end StackScript
