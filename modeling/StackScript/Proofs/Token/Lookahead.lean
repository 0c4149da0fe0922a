import StackScript.Proofs.Token.Tiling
import StackScript.Token.Reader

/-!
One token of lookahead. A reader may be asked in any order to peek, to read, for the token that
it read last and for the diagnostics that it holds. Its cursor is always behind the tokens that
it has shown, of which at most the last one has not been read, and what these tell has been
handed over or is held. Main statement: reads return the tokens of the text one after the other,
a peek returns what is read next, and of what the tokens tell nothing is lost, told twice or
told out of order.
-/

namespace StackScript

namespace Cursor

/-- What the first calls for a token tell, in order. -/
def told (c : Cursor) (count : Nat) : List Diagnostic :=
  (List.range count).flatMap fun n => (c.call n).faults.toList

theorem told_succ (c : Cursor) (count : Nat) :
    c.told (count + 1) = c.told count ++ (c.call count).faults.toList := by
  unfold told
  rw [List.range_succ, List.flatMap_append, List.flatMap_singleton]

theorem nextToken_behind_end {c : Cursor} (hend : c.nextToken.1.token.kind = .endOfStream) :
    c.nextToken.2.nextToken.1.token = c.nextToken.1.token := by
  revert hend
  unfold nextToken
  generalize Gap.space.skip c.mark c.rest = gap
  obtain ⟨opened, m, rest⟩ := gap
  cases rest with
  | nil =>
    intro _
    rfl
  | cons first rest =>
    intro hend
    exact absurd hend (Lexeme.read_ordinary c.file m first rest).kind_ne

/-- Behind the end of the stream stands the same end again and again. -/
theorem call_behind_end {c : Cursor} {count n : Nat}
    (hend : (c.call count).token.kind = .endOfStream) (hn : count ≤ n) :
    (c.call n).token = (c.call count).token := by
  induction hn with
  | refl => rfl
  | step _ ih =>
    rw [← ih] at hend
    exact (nextToken_behind_end hend).trans ih

end Cursor

namespace TokenReader

/-- What a reader can be asked. -/
inductive Call where
  | peek
  | read
  | previous
  | takeLog
  deriving DecidableEq

/-- A call with what it returned. -/
inductive Event where
  | peek (token : Token)
  | read (token : Token)
  | previous (token : Option Token)
  | takeLog (log : Log)
  deriving DecidableEq

namespace Event

def call : Event → Call
  | peek _ => .peek
  | read _ => .read
  | previous _ => .previous
  | takeLog _ => .takeLog

/-- The token that was read. -/
def read? : Event → Option Token
  | read token => some token
  | _ => none

/-- The diagnostics that were handed over. -/
def entries : Event → List Diagnostic
  | takeLog log => log.entries.toList
  | _ => []

end Event

def perform (r : TokenReader) : Call → Event × TokenReader
  | .peek => (.peek r.peek.1, r.peek.2)
  | .read => (.read r.read.1, r.read.2)
  | .previous => (.previous r.previous, r)
  | .takeLog => (.takeLog r.takeLog.1, r.takeLog.2)

def run (r : TokenReader) : List Call → List Event × TokenReader
  | [] => ([], r)
  | call :: calls =>
    let (event, r) := r.perform call
    let (events, r) := r.run calls
    (event :: events, r)

theorem run_cons (r : TokenReader) (call : Call) (calls : List Call) :
    r.run (call :: calls) = ((r.perform call).1 :: ((r.perform call).2.run calls).1,
      ((r.perform call).2.run calls).2) := rfl

theorem call_run (r : TokenReader) (calls : List Call) :
    (r.run calls).1.map Event.call = calls := by
  induction calls generalizing r with
  | nil => rfl
  | cons call calls ih =>
    have hcall : (r.perform call).1.call = call := by
      cases call <;> rfl
    rw [run_cons, List.map_cons, hcall, ih]

/-- The tokens that were read, in order. -/
def tokensRead (events : List Event) : List Token := events.filterMap Event.read?

theorem tokensRead_cons (event : Event) (events : List Event) :
    tokensRead (event :: events) = event.read?.toList ++ tokensRead events := by
  cases event <;> rfl

/-- How many tokens have been read, and how many have been read or peeked at. -/
structure Extent where
  read : Nat := 0
  seen : Nat := 0

def Extent.after (x : Extent) : Call → Extent
  | .peek => { x with seen := x.read + 1 }
  | .read => ⟨x.read + 1, x.read + 1⟩
  | .previous | .takeLog => x

section Buffer

theorem peek_eq (r : TokenReader) : r.peek.1 = r.seen.getD r.cursor.nextToken.1.token := by
  unfold peek
  cases r.seen <;> rfl

theorem seen_peek (r : TokenReader) : r.peek.2.seen = some r.peek.1 := by
  unfold peek
  split
  · assumption
  · rfl

theorem previous_peek (r : TokenReader) : r.peek.2.previous = r.previous := by
  unfold peek
  split <;> rfl

/-- What would be read is what is read next, whatever is asked before. -/
theorem read_perform (r : TokenReader) (call : Call) :
    (r.perform call).1.read?.getD (r.perform call).2.read.1 = r.read.1 := by
  cases call with
  | peek =>
    change r.peek.2.peek.1 = r.peek.1
    rw [peek_eq, seen_peek, Option.getD_some]
  | takeLog => exact r.peek_takeLog
  | read | previous => rfl

theorem read_run (r : TokenReader) (calls : List Call) :
    (tokensRead (r.run calls).1).head?.getD (r.run calls).2.read.1 = r.read.1 := by
  induction calls generalizing r with
  | nil => rfl
  | cons call calls ih =>
    rw [run_cons, tokensRead_cons, ← r.read_perform call]
    cases (r.perform call).1.read? with
    | none => exact ih _
    | some token => rfl

variable {r : TokenReader} {calls : List Call} {front back : List Event}

/-- A peek returns the first token that is read behind it, or that would be read now. -/
theorem peek_run {token : Token} (h : (r.run calls).1 = front ++ .peek token :: back) :
    token = (tokensRead back).head?.getD (r.run calls).2.read.1 := by
  induction calls generalizing r front with
  | nil => simp [run] at h
  | cons call calls ih =>
    rw [run_cons] at h
    cases front with
    | cons event front => exact ih (List.cons.inj h).2
    | nil =>
      -- the peek is the first call, and the next token is the same before it and behind it
      obtain ⟨hevent, rfl⟩ := List.cons.inj h
      cases call with
      | peek =>
        obtain rfl : r.peek.1 = token := Event.peek.inj hevent
        exact (r.read_perform .peek).symm.trans (read_run r.peek.2 calls).symm
      | read | previous | takeLog => cases hevent

/-- Only a read changes which token was read last. -/
theorem previous_perform (r : TokenReader) (call : Call) :
    (r.perform call).2.previous = (r.perform call).1.read?.or r.previous := by
  cases call with
  | peek => exact r.previous_peek
  | read | previous | takeLog => rfl

theorem previous_run {token : Option Token}
    (h : (r.run calls).1 = front ++ .previous token :: back) :
    token = (tokensRead front).getLast?.or r.previous := by
  induction calls generalizing r front with
  | nil => simp [run] at h
  | cons call calls ih =>
    rw [run_cons] at h
    cases front with
    | cons event front =>
      obtain ⟨hevent, hevents⟩ := List.cons.inj h
      rw [ih hevents, previous_perform, hevent, tokensRead_cons, List.getLast?_append,
        Option.or_assoc]
      cases event.read? <;> rfl
    | nil =>
      have hevent := (List.cons.inj h).1
      cases call with
      | previous => exact (Event.previous.inj hevent).symm
      | peek | read | takeLog => cases hevent

end Buffer

/-- Where a reader of the tokens of a cursor stands when calls have come that far, these tokens
have been read and these diagnostics handed over. -/
structure Stands (c : Cursor) (x : Extent) (tokens : List Token) (handed : List Diagnostic)
    (r : TokenReader) : Prop where
  cursor : r.cursor = c.later x.seen
  ahead : x.seen = x.read ∧ r.seen = none ∨
    x.seen = x.read + 1 ∧ r.seen = some (c.call x.read).token
  tokens : tokens = (List.range x.read).map fun n => (c.call n).token
  told : handed ++ r.held.entries.toList = c.told x.seen

section Stands

variable {c : Cursor} {x : Extent} {tokens : List Token} {handed : List Diagnostic}
  {r : TokenReader}

/-- A peek moves the cursor only if no token has been seen ahead. -/
theorem Stands.peek (h : Stands c x tokens handed r) :
    r.peek.1 = (c.call x.read).token ∧ Stands c (x.after .peek) tokens handed r.peek.2 := by
  rcases h.ahead with ⟨hx, hseen⟩ | ⟨hx, hseen⟩
  · have hnext : r.cursor.nextToken = (c.call x.read, c.later (x.read + 1)) := by
      rw [h.cursor, hx]
      rfl
    unfold TokenReader.peek
    simp only [hseen, hnext]
    refine ⟨trivial, rfl, .inr ⟨rfl, rfl⟩, h.tokens, ?_⟩
    change handed ++ (r.held.entries ++ (c.call x.read).faults).toList = c.told (x.read + 1)
    rw [Array.toList_append, ← List.append_assoc, h.told, hx, Cursor.told_succ]
  · have hx' : x.after .peek = x := by
      rw [Extent.after, ← hx]
    unfold TokenReader.peek
    rw [hx', hseen]
    exact ⟨rfl, h⟩

theorem Stands.perform (h : Stands c x tokens handed r) (call : Call) :
    Stands c (x.after call) (tokens ++ (r.perform call).1.read?.toList)
      (handed ++ (r.perform call).1.entries) (r.perform call).2 := by
  obtain ⟨htoken, hpeek⟩ := h.peek
  cases call with
  | peek => simpa [TokenReader.perform, Event.read?, Event.entries] using hpeek
  | read =>
    refine ⟨hpeek.cursor, .inl ⟨rfl, rfl⟩, ?_, ?_⟩
    · change tokens ++ [r.peek.1] = (List.range (x.read + 1)).map fun n => (c.call n).token
      rw [htoken, h.tokens, List.range_succ, List.map_append, List.map_singleton]
    · change handed ++ [] ++ r.peek.2.held.entries.toList = c.told (x.read + 1)
      rw [List.append_nil]
      exact hpeek.told
  | previous => simpa [TokenReader.perform, Event.read?, Event.entries, Extent.after] using h
  | takeLog =>
    refine ⟨h.cursor, h.ahead, (List.append_nil tokens).trans h.tokens, ?_⟩
    change handed ++ r.takeLog.1.entries.toList ++ r.takeLog.2.held.entries.toList = c.told x.seen
    rw [fst_takeLog, held_takeLog, h.told]
    exact List.append_nil _

theorem Stands.run (h : Stands c x tokens handed r) (calls : List Call) :
    Stands c (calls.foldl Extent.after x) (tokens ++ tokensRead (r.run calls).1)
      (handed ++ (r.run calls).1.flatMap Event.entries) (r.run calls).2 := by
  induction calls generalizing x tokens handed r with
  | nil => simpa [TokenReader.run, tokensRead] using h
  | cons call calls ih =>
    rw [List.foldl_cons, run_cons, tokensRead_cons, List.flatMap_cons, ← List.append_assoc,
      ← List.append_assoc]
    exact ih (h.perform call)

end Stands

/-- How far calls come that start at the first token. -/
def extent (calls : List Call) : Extent := calls.foldl Extent.after {}

/-- A reader of a text, whatever it has been asked. -/
theorem stands_run (file text : String) (calls : List Call) :
    let c := Cursor.ofText file text
    let (events, r) := (ofText file text).run calls
    Stands c (extent calls) (tokensRead events) (events.flatMap Event.entries) r := by
  intro c
  have hstart : Stands c {} [] [] (ofText file text) := ⟨rfl, .inl ⟨rfl, rfl⟩, rfl, rfl⟩
  exact hstart.run calls

/-- To take the diagnostics completes what has been handed over, for all tokens that have been
read or peeked at, and leaves nothing to hand over. -/
theorem takeLog_run (file text : String) (calls : List Call) :
    let (events, r) := (ofText file text).run calls
    events.flatMap Event.entries ++ r.takeLog.1.entries.toList =
        (Cursor.ofText file text).told (extent calls).seen ∧
      r.takeLog.2.held = {} :=
  ⟨(stands_run file text calls).told, held_takeLog _⟩

/-- Calls on a reader, what they returned and the reader that they left, beside the plain calls
for tokens of a cursor. The reads returned the first tokens in order. A peek returned the token
of the first read behind it, or of a read now, and a call for the previous token that of the last
read before it. What has been handed over and then what is held is what the plain calls tell for
the tokens that have been read or peeked at. -/
structure Transparent (c : Cursor) (calls : List Call) (events : List Event) (r : TokenReader) :
    Prop where
  answered : events.map Event.call = calls
  reads : tokensRead events = (List.range (extent calls).read).map fun n => (c.call n).token
  peeks : ∀ front token back, events = front ++ .peek token :: back →
    token = (tokensRead back).head?.getD r.read.1
  previous : ∀ front token back, events = front ++ .previous token :: back →
    token = (tokensRead front).getLast?
  told : events.flatMap Event.entries ++ r.held.entries.toList = c.told (extent calls).seen

/-- Calls on a reader of a text, in any order, show what the plain calls return. These come to the
end of the stream and stay there. -/
theorem run_transparent (file text : String) (calls : List Call) :
    let c := Cursor.ofText file text
    let (events, r) := (ofText file text).run calls
    Transparent c calls events r ∧
      ∃ count last, (∀ n < count, (c.call n).token.kind ≠ .endOfStream) ∧
        last.kind = .endOfStream ∧ ∀ n, count ≤ n → (c.call n).token = last := by
  intro c
  have hstands := stands_run file text calls
  refine ⟨⟨call_run _ calls, hstands.tokens, fun front token back => peek_run,
    fun front token back h => ?_, hstands.told⟩, ?_⟩
  · rw [previous_run h]
    exact Option.or_none
  · obtain ⟨count, hbefore, hend⟩ := c.exists_end
    exact ⟨count, (c.call count).token, hbefore, hend, fun n => Cursor.call_behind_end hend⟩

/-- What is wrong with a token can be had as soon as it is peeked at, and only once. -/
example :
    let token : Token := ⟨.unknown, "@", none, ⟨"f", 1, 1⟩⟩
    ((ofText "f" "@").run [.peek, .takeLog, .previous, .read, .takeLog, .previous]).1 =
      [.peek token, .takeLog ⟨#[.error ⟨"f", 1, 1⟩ .unknownCharacter ["@"]]⟩, .previous none,
        .read token, .takeLog {}, .previous (some token)] := by
  decide +kernel

end TokenReader

end StackScript
