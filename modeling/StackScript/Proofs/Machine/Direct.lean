import StackScript.Machine.Basic
import StackScript.Operator.Apply
import StackScript.Proofs.Code.Layout

/-!
Scripts carried out on their trees, without code and without a stack. Statements are
carried out in order and expressions have values. Which names are declared where is
a matter of the text and not of the run, so a place goes along with every part; it
also gives a function the number by which it is known. The trees themselves are gone
through once from the outside in. Only another round of a loop and the body of a
called function are carried out anew, and `again` says how, so that what has no end
is given up after so many of them.
-/

namespace StackScript

variable {σ α β : Type}

/-- A function as the script spells it, with the place of its body. -/
structure Closure where
  body : Stmt
  scope : Scope

/-- What a script works on, and what it has asked of the host so far. -/
structure World (σ : Type) where
  globals : Globals := {}
  host : σ
  calls : List (String × List Value) := []
  /-- The functions that there are so far, by their numbers. -/
  functions : List (UInt32 × Closure) := []

/-- What carrying out a part comes to. -/
inductive Direct.Result (σ α : Type) where
  | done (a : α) (w : World σ)
  | failed (report : Array Diagnostic) (w : World σ)
  | pending (w : World σ)

def Direct (σ α : Type) := World σ → Direct.Result σ α

namespace Direct

def pure (a : α) : Direct σ α := fun w => .done a w

def bind (x : Direct σ α) (f : α → Direct σ β) : Direct σ β := fun w =>
  match x w with
  | .done a w => f a w
  | .failed report w => .failed report w
  | .pending w => .pending w

instance : Monad (Direct σ) where
  pure := pure
  bind := bind

def stop (report : Array Diagnostic) : Direct σ α := fun w => .failed report w

def fail (position : Position) (fault : Fault) (argument : String) : Direct σ α :=
  stop #[.error position fault [argument]]

def unary (op : UnaryOp) (position : Position) (operand : Position × Value) : Direct σ Value :=
  match op.apply operand.2 with
  | .ok result => return result
  | .error fault => stop (op.report fault position operand)

def binary (op : BinaryOp) (position : Position) (left right : Position × Value) :
    Direct σ Value :=
  match op.apply left.2 right.2 with
  | .ok result => return result
  | .error fault => stop (op.report fault position left right)

/-- The value of a variable. -/
def variableValue (name : String) (position : Position) : Direct σ Value := fun w =>
  match w.globals.find? name with
  | some v => .done v w
  | none => fail position .unknownVariable name w

def define (name : String) (v : Value) : Direct σ Unit := fun w =>
  .done () { w with globals := w.globals.put name v }

/-- Gives a variable that there is another value. -/
def assign (name : String) (v : Value) (position : Position) : Direct σ Unit := do
  let _ ← variableValue name position
  define name v

/-- A function is known by the address of its body. -/
def closure (f : Closure) : Direct σ Value := fun w =>
  let entry := UInt32.ofNat f.scope.address
  .done (.function entry) { w with functions := (entry, f) :: w.functions }

end Direct

/-- How a host function answers a call with these arguments and nothing else. -/
def HostFunction.answer (f : HostFunction σ) (arguments : List Value) (state : σ) :
    HostReply σ :=
  f ⟨arguments.toArray, 0, arguments.length⟩ state

/-- What has been pushed on top of the arguments. -/
def HostReply.values (reply : HostReply σ) (count : Nat) : List Value :=
  reply.stack.toList.drop count

/-- The value of a call: the last one pushed, if the host has answered that it pushed
any. -/
def HostReply.value (reply : HostReply σ) (count : Nat) : Value :=
  if 0 < reply.pushed then ((reply.values count).getLast?).getD .null else .null

/-- How a statement leaves the statements around it. -/
inductive Flow where
  | next
  | returned (value : Option Value)

/-- The value of a call of a function whose body ends so. -/
def Flow.value : Flow → Value
  | next => .null
  | returned value => value.getD .null

/-- How to carry out a statement at another place. -/
abbrev Again (σ : Type) := Scope → Stmt → Direct σ Flow

namespace Direct

variable (hosts : Hosts σ) (again : Again σ)

def callHost (name : String) (arguments : List Value) (position : Position) :
    Direct σ Value := fun w =>
  match hosts.find? name with
  | some f =>
    let reply := f.answer arguments w.host
    .done (reply.value arguments.length)
      { w with host := reply.state, calls := w.calls ++ [(name, arguments)] }
  | none => fail position .unknownFunction name w

def callFunction (entry : UInt32) (position : Position) : Direct σ Value := fun w =>
  match w.functions.lookup entry with
  | some f => (again f.scope f.body >>= fun flow => return flow.value) w
  | none => fail position .unknownFunction (Value.function entry).text w

def call (callee : Value) (arguments : List Value) (position : Position) : Direct σ Value :=
  match callee with
  | .string name => callHost hosts name arguments position
  | .function entry => callFunction again entry position
  | other => fail position .unknownFunction other.text

/-- What a call calls. A declared name is a variable, and any other path of names is one
of the host's. -/
def callee (s : Scope) (e : Expr) (value : Direct σ Value) : Direct σ Value :=
  match e with
  | .name text p => if s.declared.contains text then variableValue text p else return .string text
  | e =>
    match e.dotted? with
    | some path => return .string path
    | none => value

end Direct

section Trees

variable (hosts : Hosts σ) (again : Again σ)

mutual

def Expr.exec (s : Scope) : Expr → Direct σ Value
  | .literal value _ => return value
  | .name text p => Direct.variableValue text p
  | .group inner _ => inner.exec s
  | .unary op operand p => do
    let v ← operand.exec s
    Direct.unary op p (operand.position, v)
  | .binary op left right p => do
    let a ← left.exec s
    let b ← right.exec (left.behind s)
    Direct.binary op p (left.position, a) (right.position, b)
  | .logical op left right _ => do
    let a ← left.exec s
    if op.isSettledBy a.isTruthy then return .bool a.isTruthy
    else
      let b ← right.exec ((left.behind s).skip op.gap)
      return .bool b.isTruthy
  | .function body _ => Direct.closure ⟨body, s.skip 1⟩
  | .call callee arguments p => do
    let vs ← execArguments s arguments
    let behind := argumentsBehind s arguments
    let f ← Direct.callee behind callee (callee.exec behind)
    Direct.call hosts again f vs p
  | .index _ _ p => Direct.fail p .unsupportedExpression "Array access"
  | .member parent child p =>
    match (Expr.member parent child p).dotted? with
    | some path => Direct.variableValue path p
    | none => Direct.fail p .unsupportedExpression "Member access"

def execArguments (s : Scope) : List Expr → Direct σ (List Value)
  | [] => return []
  | e :: es => do
    let v ← e.exec s
    let vs ← execArguments (e.behind s) es
    return v :: vs

def Stmt.exec (s : Scope) : Stmt → Direct σ Flow
  | .empty _ => return .next
  | .declare name value _ => do
    let v ← value.exec (s.declare name)
    Direct.define name v
    return .next
  | .block body _ => execStatements s body
  | .returnNull _ => return .returned none
  | .returnValue value _ => do
    let v ← value.exec s
    return .returned (some v)
  | .ifThen condition body _ => do
    let v ← condition.exec s
    if v.isTruthy then body.exec ((condition.behind s).skip 2) else return .next
  | .ifElse condition body other _ => do
    let v ← condition.exec s
    if v.isTruthy then body.exec ((condition.behind s).skip 2)
    else other.exec ((body.behind ((condition.behind s).skip 2)).skip 1)
  | .whileDo condition body p => do
    let v ← condition.exec s
    if v.isTruthy then
      match ← body.exec ((condition.behind s).skip 2) with
      | .next => again s (.whileDo condition body p)
      | .returned value => return .returned value
    else return .next
  | .expression value _ => do
    let _ ← value.exec s
    return .next
  | .assign (.name text _) value p => do
    let v ← value.exec s
    Direct.assign text v p
    return .next
  | .assign target _ _ =>
    Direct.fail target.position .invalidAssignmentTarget target.text

def execStatements (s : Scope) : List Stmt → Direct σ Flow
  | [] => return .next
  | t :: ts => do
    match ← t.exec s with
    | .next => execStatements (t.behind s) ts
    | .returned value => return .returned value

end

end Trees

/-- Carries out a statement with so many rounds and calls inside one another. -/
def execWithin (hosts : Hosts σ) : Nat → Again σ
  | 0 => fun _ _ w => .pending w
  | n + 1 => fun s t => t.exec hosts (execWithin hosts n) s

/-- Carries out a script from its start. -/
def Script.exec (script : Script) (hosts : Hosts σ) (patience : Nat) (host : σ) :
    Direct.Result σ Flow :=
  execWithin hosts patience {} script.root { host }

end StackScript
