import StackScript.Code.OfScript
import StackScript.Grammar.Script
import StackScript.Machine.Run
import StackScript.Files

/-!
Scripts inside another program. An engine holds the host functions and the limits;
each step, from text to tree to code to a run, is taken only if nothing was told in
the steps before it.
-/

namespace StackScript

variable {σ : Type}

/-- Code for the text of a script, if there is nothing to tell about it. -/
def Code.ofText (file text : String) : Reading Code :=
  let script := Script.read file text
  match script.result with
  | none => ⟨none, script.faults⟩
  | some tree =>
    let compiled := tree.compile
    ⟨if compiled.faults.isEmpty then some compiled.code else none, compiled.faults⟩

structure Engine (σ : Type) where
  hosts : Hosts σ := {}
  limits : Limits := {}
  /-- What the host functions share. -/
  host : σ

namespace Engine

/-- Gives a host function a name, in place of what had it before. -/
def setFunction (e : Engine σ) (name : String) (f : HostFunction σ) : Engine σ :=
  { e with hosts := e.hosts.insert name f }

/-- Runs code on a machine of its own. -/
def runCode (e : Engine σ) (patience : Nat) (code : Code) (log : Log) : Engine σ × Log :=
  let setting : Setting σ := { code, hosts := e.hosts, limits := e.limits }
  let run := Machine.run setting patience { host := e.host }
  ({ e with host := run.machine.host }, log.addAll run.report)

def runText (e : Engine σ) (patience : Nat) (file text : String) (log : Log) :
    Engine σ × Log :=
  let code := Code.ofText file text
  match code.result with
  | some c => e.runCode patience c (code.logged log)
  | none => (e, code.logged log)

/-- Runs the script in a file. A file that cannot be read is told at no line of it. -/
def runFile (e : Engine σ) (patience : Nat) (d : Directory) (path : String) (log : Log) :
    Engine σ × Log :=
  match d.readText path with
  | .ok text => e.runText patience path text log
  | .error error =>
    (e, log.add (.error (.ofFile path) .unreadableFile [path, error.message]))

end Engine

end StackScript
