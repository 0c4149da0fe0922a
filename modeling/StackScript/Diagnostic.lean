import StackScript.Position

/-!
What went wrong, where, and how it is told. A diagnostic keeps its kind and its
arguments apart from the wording, so that a program can look at the one and a
person read the other.
-/

namespace StackScript

inductive Severity where
  | note
  | warning
  | error
  deriving DecidableEq, Inhabited

def Severity.text : Severity → String
  | note => "Note"
  | warning => "Warning"
  | error => "Error"

inductive Fault where
  | endInString
  | endInComment
  | invalidEscape
  | unknownCharacter
  | unexpectedSymbol
  | invalidSymbol
  | missingCloseParen
  | expectedExpression
  | unreadableNumber
  | invalidParserState
  | nestingTooDeep
  | invalidAssignmentTarget
  | unsupportedExpression
  | operationOnNull
  | invalidBinaryOperation
  | invalidUnaryOperation
  | divisionByZero
  | evaluatesTo
  | unknownFunction
  | unknownVariable
  | stackOverflow
  | stepLimitExceeded
  | unreadableFile
  | internalError
  deriving DecidableEq, Inhabited

namespace Fault

def all : List Fault :=
  [endInString, endInComment, invalidEscape, unknownCharacter, unexpectedSymbol,
   invalidSymbol, missingCloseParen, expectedExpression, unreadableNumber,
   invalidParserState, nestingTooDeep, invalidAssignmentTarget, unsupportedExpression,
   operationOnNull, invalidBinaryOperation, invalidUnaryOperation, divisionByZero,
   evaluatesTo, unknownFunction, unknownVariable, stackOverflow, stepLimitExceeded,
   unreadableFile, internalError]

theorem mem_all (f : Fault) : f ∈ all := by cases f <;> decide

/-- The wording. An argument that was not given is told as missing. -/
def message (fault : Fault) (arguments : List String) : String :=
  let arg (i : Nat) : String := arguments.getD i "<missing argument>"
  match fault with
  | endInString => "'End Of Stream' detected in string"
  | endInComment => "'End Of Stream' detected in block comment"
  | invalidEscape => "Invalid escape character \\" ++ arg 0
  | unknownCharacter => "Unknown character " ++ arg 0
  | unexpectedSymbol => "Unexpected symbol " ++ arg 1 ++ ", expected " ++ arg 0
  | invalidSymbol => "Invalid symbol " ++ arg 0
  | missingCloseParen => "Missing ), found " ++ arg 0
  | expectedExpression => "Expected expression, found " ++ arg 0
  | unreadableNumber => "Unable to parse " ++ arg 0 ++ " as a number"
  | invalidParserState => "Invalid parser state: " ++ arg 0
  | nestingTooDeep => "Nesting deeper than " ++ arg 0 ++ " levels"
  | invalidAssignmentTarget => "Unable to assign to " ++ arg 0
  | unsupportedExpression => arg 0 ++ " is not supported here"
  | operationOnNull => "Invalid operation " ++ arg 0 ++ " on null"
  | invalidBinaryOperation => "Invalid binary operation " ++ arg 0
  | invalidUnaryOperation => "Invalid unary operation " ++ arg 0
  | divisionByZero => "Division by zero in " ++ arg 0
  | evaluatesTo => "This evaluates to " ++ arg 0 ++ ": " ++ arg 1
  | unknownFunction => arg 0 ++ " is not a function"
  | unknownVariable => arg 0 ++ " is not defined"
  | stackOverflow => "Stack overflow: " ++ arg 0
  | stepLimitExceeded => "Execution step limit of " ++ arg 0 ++ " exceeded"
  | unreadableFile => "Failed to open file " ++ arg 0 ++ ": " ++ arg 1
  | internalError => "Internal error: " ++ arg 0

end Fault

structure Diagnostic where
  position : Position
  severity : Severity
  fault : Fault
  arguments : List String
  /-- The grammar rules that were open, the outermost first. -/
  trail : List String
  deriving DecidableEq, Inhabited

namespace Diagnostic

def error (position : Position) (fault : Fault) (arguments : List String)
    (trail : List String := []) : Diagnostic :=
  ⟨position, .error, fault, arguments, trail⟩

def note (position : Position) (fault : Fault) (arguments : List String) : Diagnostic :=
  ⟨position, .note, fault, arguments, []⟩

def warning (position : Position) (fault : Fault) (arguments : List String) : Diagnostic :=
  ⟨position, .warning, fault, arguments, []⟩

def message (d : Diagnostic) : String := d.fault.message d.arguments

def trailText (d : Diagnostic) : String := String.intercalate "->" d.trail

def text (d : Diagnostic) : String :=
  d.position.text ++ " " ++ d.severity.text ++ ": " ++ d.message

end Diagnostic

end StackScript
