import StackScript.Grammar.Statement
import StackScript.Log

/-!
Reading a whole text as a script or as one expression. There is a result exactly
if nothing was told on the way.
-/

namespace StackScript

variable {α : Type}

/-- What came of a text. -/
structure Reading (α : Type) where
  result : Option α
  faults : Array Diagnostic

namespace Reading

/-- Keeps a result only if nothing was told on the way. -/
def ofOutcome {s : Grammar.State} (outcome : Grammar.Outcome α s) : Reading α :=
  { result := if outcome.state.told then none else outcome.result
    faults := outcome.state.faults }

/-- Adds what was told to a log. -/
def logged (reading : Reading α) (log : Log) : Log := log.addAll reading.faults

end Reading

namespace Grammar

def script : Rule Script := do
  let position := (← Rule.peek).position
  let body ← statements false (level maxNesting).statement #[]
  return ⟨(body.map Tall.tree).toList, position⟩

def wholeExpression : Rule Expr := do
  let e ← (level maxNesting).expression
  let _ ← Rule.require .endOfStream
  return e.tree

def run (rule : Rule α) (tokens : TokenStream) : Reading α :=
  .ofOutcome (rule [] (.ofStream tokens))

end Grammar

def Script.ofTokens (tokens : TokenStream) : Reading Script := Grammar.run Grammar.script tokens

def Script.read (file text : String) : Reading Script := ofTokens (.ofText file text)

def Expr.ofTokens (tokens : TokenStream) : Reading Expr :=
  Grammar.run Grammar.wholeExpression tokens

def Expr.read (file text : String) : Reading Expr := ofTokens (.ofText file text)

end StackScript
