import StackScript.Diagnostic

/-!
Diagnostics in the order in which they arose. Nothing is merged or taken back.
-/

namespace StackScript

structure Log where
  entries : Array Diagnostic := #[]
  deriving DecidableEq, Inhabited

namespace Log

def isEmpty (log : Log) : Bool := log.entries.isEmpty

def size (log : Log) : Nat := log.entries.size

def add (log : Log) (d : Diagnostic) : Log := ⟨log.entries.push d⟩

def addAll (log : Log) (ds : Array Diagnostic) : Log := ⟨log.entries ++ ds⟩

def count (log : Log) (severity : Severity) : Nat :=
  log.entries.countP fun d => d.severity = severity

def contains (log : Log) (fault : Fault) : Bool :=
  log.entries.any fun d => d.fault = fault

/-- One line for each entry and a last line with the totals. -/
def text (log : Log) : String :=
  log.entries.foldl (fun out d => out ++ d.text ++ "\n") "" ++
    toString (log.count .error) ++ " error(s) and " ++
    toString (log.count .warning) ++ " warning(s) detected.\n"

@[simp] theorem entries_add (log : Log) (d : Diagnostic) :
    (log.add d).entries = log.entries.push d := rfl

@[simp] theorem entries_addAll (log : Log) (ds : Array Diagnostic) :
    (log.addAll ds).entries = log.entries ++ ds := rfl

end Log

end StackScript
