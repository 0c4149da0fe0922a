import StackScript.Proofs.Grammar.Acceptance
import StackScript.Proofs.Grammar.Progress
import StackScript.Proofs.Token.Below

/-!
One script below another. What has been read leaves nothing behind that could matter: when a
list of statements has been read with nothing told, reading goes on as if it began there, even
though the next token, about which there may be something to tell, has already been looked at.
Main statement: two texts one below the other are told what the second one alone is told, only
further down, and have the statements of both.
-/

namespace StackScript.Grammar

namespace State

theorem settle_settle (s : State) : s.settle.settle = s.settle := by
  cases hs : s.ahead with
  | nil =>
    obtain ⟨hahead, hstop, hfaults, -⟩ := settle_of_nil hs
    obtain ⟨hahead', hstop', hfaults', htold'⟩ := settle_of_nil hahead
    refine eq_of_fields (hahead'.trans hahead.symm) ?_ ?_ ?_
    · rw [hstop', hstop]
    · rw [hfaults', hstop, Array.append_empty]
    · rw [htold', hstop]
      exact Bool.or_false _
  | cons t rest =>
    obtain ⟨hahead, hstop, hfaults, -⟩ := settle_of_cons hs
    obtain ⟨hahead', hstop', hfaults', htold'⟩ := settle_of_cons hahead
    refine eq_of_fields (hahead'.trans hahead.symm) hstop' ?_ (htold'.trans (Bool.or_false _))
    rw [hfaults', Array.append_empty]

theorem settle_of_plain {s : State} {t : Token} {rest : List Scanned}
    (hs : s.ahead = Grammar.plain t :: rest) : s.settle = s := by
  obtain ⟨hahead, hstop, hfaults, htold⟩ := settle_of_cons hs
  refine eq_of_fields (hahead.trans hs.symm) hstop ?_ (htold.trans (Bool.or_false _))
  rw [hfaults]
  exact Array.append_empty

/-- The place behind so many tokens. -/
def advance : Nat → State → State
  | 0, s => s
  | n + 1, s => advance n s.settle.drop

theorem advance_succ (n : Nat) (s : State) : s.advance (n + 1) = (s.advance n).settle.drop := by
  induction n generalizing s with
  | zero => rfl
  | succ n ih => exact ih s.settle.drop

theorem advance_plain (ts : List Token) (rest : List Scanned) (stop : Scanned) :
    (ofStream ⟨ts.map Grammar.plain ++ rest, stop⟩).advance ts.length = ofStream ⟨rest, stop⟩ := by
  induction ts with
  | nil => rfl
  | cons t ts ih =>
    have hsettle : (ofStream ⟨(t :: ts).map Grammar.plain ++ rest, stop⟩).settle =
        ofStream ⟨(t :: ts).map Grammar.plain ++ rest, stop⟩ := settle_of_plain rfl
    rw [List.length_cons, advance, hsettle]
    exact ih

/-- A state on the way from `start`, and the same one with nothing to tell about its tokens.
As long as no rule has told anything, only the tokens that have been passed were told about. -/
structure Bare (start s s' : State) : Prop where
  ahead : s'.ahead = (s.ahead.map Scanned.token).map Grammar.plain
  stop : s'.stop = Grammar.plain s.stop.token
  left_le : s.left ≤ start.left
  settled : s'.faults = #[] → s.settle = (start.advance (start.left - s.left)).settle

namespace Bare

variable {start s s' : State}

theorem settle_eq (h : Bare start s s') : s'.settle = s' := by
  cases hs : s.ahead with
  | nil =>
    have hs' : s'.ahead = [] := by rw [h.ahead, hs]; rfl
    obtain ⟨hahead, hstop, hfaults, htold⟩ := settle_of_nil hs'
    refine eq_of_fields (hahead.trans hs'.symm) ?_ ?_ ?_
    · rw [hstop, h.stop]
      rfl
    · rw [hfaults, h.stop]
      exact Array.append_empty
    · rw [htold, h.stop]
      exact Bool.or_false _
  | cons t rest =>
    have hs' : s'.ahead = Grammar.plain t.token :: (rest.map Scanned.token).map Grammar.plain := by
      rw [h.ahead, hs]
      rfl
    exact settle_of_plain hs'

theorem settle (h : Bare start s s') : Bare start s.settle s'.settle := by
  rw [h.settle_eq]
  refine ⟨?_, ?_, ?_, ?_⟩
  · rw [tokens_settle, h.ahead]
  · rw [stop_settle, h.stop]
  · rw [left_settle]
    exact h.left_le
  · intro hquiet
    rw [left_settle, settle_settle, h.settled hquiet]

theorem drop (h : Bare start s s') : Bare start s.settle.drop s'.settle.drop := by
  have hsettled := h.settle
  refine ⟨?_, hsettled.stop, ?_, ?_⟩
  · change s'.settle.ahead.tail = (s.settle.ahead.tail.map Scanned.token).map Grammar.plain
    rw [hsettled.ahead, List.map_tail, List.map_tail]
  · exact Nat.le_trans (Nat.sub_le _ _) hsettled.left_le
  · intro hquiet
    rw [h.settle_eq] at hquiet
    have hsettle := h.settled hquiet
    cases hs : s.ahead with
    | nil =>
      -- The end of the stream is not taken, and nothing is told about it twice.
      have hleft : s.left = 0 := by rw [s.left_eq, hs]; rfl
      have hdrop : s.settle.drop = s.settle := by
        refine eq_of_fields ?_ rfl rfl rfl
        change s.settle.ahead.tail = s.settle.ahead
        rw [(settle_of_nil hs).1]
        rfl
      rw [hdrop, left_settle, settle_settle, hsettle]
    | cons t rest =>
      have hpos : 0 < s.left := left_pos (by rw [hs]; exact List.cons_ne_nil t rest)
      have hle := h.left_le
      have hcount : start.left - s.settle.drop.left = start.left - s.left + 1 := by
        rw [left_drop, left_settle]
        omega
      rw [hcount, advance_succ, ← hsettle]

end Bare

end State

/-- A run of the rules, and the same run with nothing to tell about the tokens. -/
def Coupling.bare (start : State) : Coupling where
  place := id
  holds := State.Bare start
  left h := by rw [State.left_eq, State.left_eq, h.ahead, List.length_map, List.length_map]
  next {s s'} h := by
    cases hs : s.ahead with
    | nil =>
      have hs' : s'.ahead = [] := by rw [h.ahead, hs]; rfl
      rw [State.next_of_nil hs, State.next_of_nil hs', h.stop]
      rfl
    | cons t rest =>
      have hs' : s'.ahead = plain t.token :: (rest.map Scanned.token).map plain := by
        rw [h.ahead, hs]
        rfl
      rw [State.next_of_cons hs, State.next_of_cons hs']
      rfl
  settle h := h.settle
  drop h := h.drop
  tell {s s'} h _ _ _ _ := by
    refine ⟨h.ahead, h.stop, h.left_le, fun hquiet => ?_⟩
    simpa [State.tell] using congrArg Array.size hquiet

open Rule

section Front

variable {n : Nat} {rest : List Scanned} {stop : Scanned}

open State (ofStream)

/-- A statement that has not been moved is the same one, with its height. -/
theorem made_of_moves {C : Coupling} (hplace : C.place = id) {stmt : Stmt}
    {made : Option (Tall Stmt)} (h : Option.Rel C.stmt made (some (.ofStmt stmt))) :
    made = some (.ofStmt stmt) := by
  cases h with
  | @some t _ hmoves =>
    have htree : stmt = t.tree := by
      have heq := congrArg Tall.tree hmoves.eq
      rw [hplace] at heq
      exact heq.trans t.tree.moved_id
    have hheight : stmt.height = t.height := congrArg Tall.height hmoves.eq
    subst htree
    rw [Tall.ofStmt, hheight]

/-- A statement is read in front of whatever stands behind it, and what has been told then is
told about the next token. -/
theorem statement_in_front {ts : List Token} {stmt : Stmt} (hd : Derives n ts (.statement stmt))
    (hheight : stmt.height ≤ maxHeight)
    (helse : (ofStream ⟨rest, stop⟩).next.kind ≠ .keywordElse) (trail : List String) :
    ∃ s, ((level n).statement trail (ofStream ⟨ts.map plain ++ rest, stop⟩)).1 =
        (some (.ofStmt stmt), s) ∧ s.left = rest.length ∧
      s.settle = (ofStream ⟨rest, stop⟩).settle := by
  have helse' : ((rest.map Scanned.token).headD stop.token).kind ≠ .keywordElse := by
    cases rest <;> exact helse
  -- Tokens with nothing to tell about them give the statement. The run on the tokens as they are
  -- is coupled with that one, so it comes to the same.
  have hgives := hd.isRead stop.token hheight (rest.map Scanned.token) (fun _ => helse') trail
  have hstart : (Coupling.bare (ofStream ⟨ts.map plain ++ rest, stop⟩)).holds
      (ofStream ⟨ts.map plain ++ rest, stop⟩)
      (.plain (ts ++ rest.map Scanned.token) stop.token) := by
    refine ⟨?_, rfl, Nat.le_refl _, fun _ => ?_⟩
    · simp [State.plain, ofStream, plain]
    · rw [Nat.sub_self]
      rfl
  obtain ⟨hresult, hholds⟩ := (level_coupled (.bare _) n).statement trail _ _ hstart
  unfold Outcome.result at hresult
  unfold Outcome.state at hholds
  rw [hgives] at hresult hholds
  generalize (level n).statement trail (ofStream ⟨ts.map plain ++ rest, stop⟩) = o
    at hresult hholds
  obtain ⟨⟨result, s⟩, hbefore, told⟩ := o
  have htokens := congrArg List.length hholds.ahead
  have hleft : s.left = rest.length := by
    rw [s.left_eq]
    simpa [State.plain] using htokens.symm
  refine ⟨s, ?_, hleft, ?_⟩
  · exact congrArg (·, s) (made_of_moves rfl hresult)
  · have hcount : (ofStream ⟨ts.map plain ++ rest, stop⟩).left - s.left = ts.length := by
      rw [hleft, State.left_eq]
      simp [ofStream]
    have hsettled := hholds.settled rfl
    dsimp only at hsettled
    rw [hsettled, hcount, State.advance_plain]

end Front

section Loop

variable (inBlock : Bool) (statement : Rule (Tall Stmt)) (all : Array (Tall Stmt))
  (trail : List String)

theorem statements_settle (s : State) :
    (statements inBlock statement all trail s.settle).1 =
      (statements inBlock statement all trail s).1 := by
  cases hend : endsStatements inBlock s.next.kind with
  | true =>
    rw [statements_end inBlock statement all trail hend,
      statements_end inBlock statement all trail (by rwa [State.next_settle]), State.settle_settle]
  | false =>
    have hend' : endsStatements inBlock s.settle.next.kind = false := by rwa [State.next_settle]
    have hround : Rule.round inBlock statement all trail s.settle =
        Rule.round inBlock statement all trail s := by
      unfold Rule.round
      rw [State.settle_settle]
    have hleft : s.settle.left = s.left := s.left_settle
    by_cases hlt : (Rule.round inBlock statement all trail s).2.left < s.left
    · have hlt' : (Rule.round inBlock statement all trail s.settle).2.left < s.settle.left := by
        rwa [hround, hleft]
      rw [statements_round_go inBlock statement all trail hend hlt,
        statements_round_go inBlock statement all trail hend' hlt', hround]
    · have hle' : ¬ (Rule.round inBlock statement all trail s.settle).2.left < s.settle.left := by
        rwa [hround, hleft]
      rw [statements_round_stop inBlock statement all trail hend hlt,
        statements_round_stop inBlock statement all trail hend' hle', hround]

end Loop

section Lists

open State (ofStream)

variable {n : Nat} {rest : List Scanned} {stop : Scanned}

/-- Neither a statement nor what may stand behind statements begins with `else`. -/
theorem next_ne_else {ts : List Token} {stmts : List Stmt} (hd : Derives n ts (.statements stmts))
    (helse : (ofStream ⟨rest, stop⟩).next.kind ≠ .keywordElse) :
    (ofStream ⟨ts.map plain ++ rest, stop⟩).next.kind ≠ .keywordElse := by
  cases hd with
  | none => exact helse
  | cons head tail =>
    obtain ⟨t, us, rfl, hstart⟩ := head.starts rfl
    change t.kind ≠ .keywordElse
    intro hkind
    rw [hkind] at hstart
    contradiction

/-- Statements that derive are read in front of whatever stands behind them, and reading goes
on there as if it began there. -/
theorem statements_in_front {ts : List Token} {stmts : List Stmt}
    (hd : Derives n ts (.statements stmts)) (hheight : ∀ s ∈ stmts, s.height ≤ maxHeight)
    (helse : (ofStream ⟨rest, stop⟩).next.kind ≠ .keywordElse) (all : Array (Tall Stmt))
    (trail : List String) :
    (statements false (level n).statement all trail
        (ofStream ⟨ts.map plain ++ rest, stop⟩)).1 =
      (statements false (level n).statement (all ++ (stmts.map Tall.ofStmt).toArray) trail
        (ofStream ⟨rest, stop⟩)).1 := by
  induction stmts generalizing ts all with
  | nil =>
    cases hd
    rw [List.map_nil, List.map_nil, Array.append_empty]
    rfl
  | cons stmt stmts ih =>
    cases hd with
    | @cons _ ts us _ _ head tail =>
      obtain ⟨hone, hmore⟩ := List.forall_mem_cons.1 hheight
      have hrest : (ofStream ⟨us.map plain ++ rest, stop⟩).next.kind ≠ .keywordElse :=
        next_ne_else tail helse
      obtain ⟨s, hs, hleft, hsettle⟩ := statement_in_front head hone hrest trail
      obtain ⟨t, ts, rfl, hstart⟩ := head.starts rfl
      have hend : endsStatements false
          (ofStream ⟨(t :: ts).map plain ++ (us.map plain ++ rest), stop⟩).next.kind = false := by
        change endsStatements false t.kind = false
        cases hkind : t.kind <;> rw [hkind] at hstart <;> first | rfl | contradiction
      -- A round begins by settling, which changes nothing in front of such a token.
      have hplain : (ofStream ⟨(t :: ts).map plain ++ (us.map plain ++ rest), stop⟩).settle =
          ofStream ⟨(t :: ts).map plain ++ (us.map plain ++ rest), stop⟩ :=
        State.settle_of_plain rfl
      rw [← hplain] at hs
      have hlt : s.left <
          (ofStream ⟨(t :: ts).map plain ++ (us.map plain ++ rest), stop⟩).left := by
        change s.left < ((t :: ts).map plain ++ (us.map plain ++ rest)).length
        rw [List.length_append, List.length_map, List.length_cons]
        omega
      have hgo := statements_go false (level n).statement all trail hend hs hlt
      rw [List.map_append, List.append_assoc, hgo, ← statements_settle, hsettle,
        statements_settle, ih tail hmore]
      simp

end Lists

/-- The state with all its places moved. -/
def State.moved (place : Position → Position) (s : State) : State where
  ahead := s.ahead.map (Scanned.moved place)
  stop := s.stop.moved place
  faults := s.faults.map (Diagnostic.moved place)
  told := s.told

namespace State

variable (place : Position → Position) (s : State)

theorem ahead_moved : (s.moved place).ahead = s.ahead.map (Scanned.moved place) := rfl

theorem stop_moved : (s.moved place).stop = s.stop.moved place := rfl

theorem faults_moved : (s.moved place).faults = s.faults.map (Diagnostic.moved place) := rfl

theorem told_moved : (s.moved place).told = s.told := rfl

theorem next_moved : (s.moved place).next = s.next.moved place := by
  cases hs : s.ahead with
  | nil =>
    rw [next_of_nil hs, next_of_nil (by rw [ahead_moved, hs, List.map_nil])]
    rfl
  | cons t rest =>
    rw [next_of_cons hs, next_of_cons (by rw [ahead_moved, hs, List.map_cons])]
    rfl

theorem settle_moved : (s.moved place).settle = s.settle.moved place := by
  cases hs : s.ahead with
  | nil =>
    obtain ⟨hahead, hstop, hfaults, htold⟩ := settle_of_nil hs
    obtain ⟨hahead', hstop', hfaults', htold'⟩ :=
      settle_of_nil (s := s.moved place) (by rw [ahead_moved, hs, List.map_nil])
    refine eq_of_fields ?_ ?_ ?_ ?_
    · rw [hahead', ahead_moved, hahead, List.map_nil]
    · rw [hstop', stop_moved, stop_moved, hstop, Scanned.moved_plain]
      rfl
    · rw [hfaults', faults_moved, faults_moved, hfaults, Array.map_append]
      rfl
    · rw [htold', told_moved, told_moved, htold, stop_moved, s.stop.isEmpty_moved]
  | cons t rest =>
    obtain ⟨hahead, hstop, hfaults, htold⟩ := settle_of_cons hs
    obtain ⟨hahead', hstop', hfaults', htold'⟩ :=
      settle_of_cons (s := s.moved place) (by rw [ahead_moved, hs, List.map_cons])
    refine eq_of_fields ?_ ?_ ?_ ?_
    · rw [hahead', ahead_moved, hahead, List.map_cons, Scanned.moved_plain]
      rfl
    · rw [hstop', stop_moved, stop_moved, hstop]
    · rw [hfaults', faults_moved, faults_moved, hfaults, Array.map_append]
      rfl
    · rw [htold', told_moved, told_moved, htold, t.isEmpty_moved]

theorem drop_moved : (s.moved place).drop = s.drop.moved place :=
  eq_of_fields List.map_tail.symm rfl rfl rfl

end State

/-- A run of the rules, and the same run at other places. -/
def Coupling.moved (place : Position → Position) : Coupling where
  place := place
  holds s s' := s' = s.moved place
  left := by
    rintro s _ rfl
    rw [State.left_eq, State.left_eq, State.ahead_moved, List.length_map]
  next := by
    rintro s _ rfl
    exact s.next_moved place
  settle := by
    rintro s _ rfl
    exact s.settle_moved place
  drop := by
    rintro s _ rfl
    rw [State.settle_moved, State.drop_moved]
  tell := by
    rintro s _ rfl position fault arguments trail
    refine State.eq_of_fields rfl rfl ?_ rfl
    rw [State.tell, State.tell, State.faults_moved, State.faults_moved, Array.map_push]
    rfl

theorem State.ofStream_moved (place : Position → Position) (tokens : TokenStream) :
    ofStream (tokens.moved place) = (ofStream tokens).moved place :=
  eq_of_fields rfl rfl Array.map_empty.symm rfl

/-- The trees of statements that have been read. -/
def treesOf (all : Array (Tall Stmt)) : List Stmt := (all.map Tall.tree).toList

/-- Statements read behind others, at other places, are the statements read by themselves,
moved and put behind those others. -/
theorem statements_moved (place : Position → Position) (n : Nat) (before : Array (Tall Stmt))
    (trail : List String) (s : State) :
    (statements false (level n).statement before trail (s.moved place)).result.map treesOf =
        (statements false (level n).statement #[] trail s).result.map (fun all =>
          treesOf before ++ (treesOf all).map (Stmt.moved place)) ∧
      (statements false (level n).statement before trail (s.moved place)).state =
        (statements false (level n).statement #[] trail s).state.moved place := by
  have hcoupled : (statements false (level n).statement #[]).Coupled (.moved place)
      (fun all all' => treesOf all' = treesOf before ++ (treesOf all).map (Stmt.moved place))
      (statements false (level n).statement before) := by
    refine .statements false (level_coupled (.moved place) n).statement ?_ ?_
    · intro all all' t t' hall ht
      unfold treesOf at hall ⊢
      rw [Array.map_push, Array.map_push, Array.toList_push, Array.toList_push, hall, ht.eq,
        List.map_append, List.append_assoc]
      rfl
    · simp [treesOf]
  obtain ⟨hmade, hstate⟩ := hcoupled trail s (s.moved place) rfl
  refine ⟨?_, hstate⟩
  generalize (statements false (level n).statement #[] trail s).result = made at hmade ⊢
  generalize (statements false (level n).statement before trail (s.moved place)).result = made'
    at hmade ⊢
  cases hmade with
  | none => rfl
  | some heq => exact congrArg some heq

/-- Statements are read in front of other tokens, which are moved to other places, as they and
the statements of those tokens, moved. -/
theorem statements_in_front_moved {n : Nat} {ts : List Token} {stmts : List Stmt}
    {tokens : TokenStream} (hd : Derives n ts (.statements stmts))
    (hheight : ∀ s ∈ stmts, s.height ≤ maxHeight)
    (helse : (State.ofStream tokens).next.kind ≠ .keywordElse) (place : Position → Position) :
    let o := statements false (level n).statement #[] [] (.ofStream tokens)
    let o' := statements false (level n).statement #[] []
      (.ofStream ⟨ts.map plain ++ (tokens.moved place).ahead, (tokens.moved place).stop⟩)
    o'.result.map treesOf =
        o.result.map (fun all => stmts ++ (treesOf all).map (Stmt.moved place)) ∧
      o'.state = o.state.moved place := by
  intro o o'
  have helse' : (State.ofStream (tokens.moved place)).next.kind ≠ .keywordElse := by
    rw [State.ofStream_moved, State.next_moved]
    exact helse
  have hfront := statements_in_front hd hheight helse' #[] []
  change (o' : Outcome _ _).1 = _ at hfront
  have htrees : treesOf (#[] ++ (stmts.map Tall.ofStmt).toArray) = stmts := by
    rw [treesOf, Array.empty_append, List.map_toArray, Phrase.IsRead.stmts_trees]
  have hmoved := statements_moved place n (#[] ++ (stmts.map Tall.ofStmt).toArray) []
    (.ofStream tokens)
  rw [htrees, ← State.ofStream_moved] at hmoved
  unfold Outcome.result Outcome.state at hmoved ⊢
  rw [hfront]
  exact hmoved

/-- What is made of a script: its statements, if nothing has been told. -/
theorem ofTokens_statements (tokens : TokenStream) :
    let o := statements false (level maxNesting).statement #[] [] (.ofStream tokens)
    (Script.ofTokens tokens).faults = o.state.faults ∧
      (Script.ofTokens tokens).result.map Script.statements =
        if o.state.told then none else o.result.map treesOf := by
  intro o
  have hrun := scriptOf_run (level maxNesting) [] (.ofStream tokens)
  have hsettle := statements_settle false (level maxNesting).statement #[] [] (.ofStream tokens)
  unfold Outcome.result Outcome.state at hrun
  rw [hsettle] at hrun
  have hresult : (script [] (.ofStream tokens)).result = _ := congrArg Prod.fst hrun
  have hstate : (script [] (.ofStream tokens)).state = o.state := congrArg Prod.snd hrun
  unfold Script.ofTokens run Reading.ofOutcome
  rw [hresult, hstate]
  refine ⟨rfl, ?_⟩
  dsimp only
  split
  · rfl
  · rw [Option.map_map]
    rfl

/-- A script in front of other tokens, which are moved to other places. -/
theorem ofTokens_in_front {ts : List Token} {stmts : List Stmt} {tokens : TokenStream}
    (hd : Derives maxNesting ts (.statements stmts)) (hheight : ∀ s ∈ stmts, s.height ≤ maxHeight)
    (helse : (State.ofStream tokens).next.kind ≠ .keywordElse) (place : Position → Position) :
    let whole : TokenStream :=
      ⟨ts.map plain ++ (tokens.moved place).ahead, (tokens.moved place).stop⟩
    (Script.ofTokens whole).faults =
        (Script.ofTokens tokens).faults.map (Diagnostic.moved place) ∧
      (Script.ofTokens whole).result.map Script.statements =
        (Script.ofTokens tokens).result.map fun t =>
          stmts ++ t.statements.map (Stmt.moved place) := by
  intro whole
  obtain ⟨hfaults, hresult⟩ := ofTokens_statements tokens
  obtain ⟨hfaults', hresult'⟩ := ofTokens_statements whole
  obtain ⟨hmade, hstate⟩ := statements_in_front_moved hd hheight helse place
  have htrees := congrArg (Option.map fun all => stmts ++ all.map (Stmt.moved place)) hresult
  rw [Option.map_map] at htrees
  rw [hstate] at hfaults' hresult'
  rw [hmade, State.told_moved] at hresult'
  constructor
  · rw [hfaults', State.faults_moved, hfaults]
  · rw [hresult']
    refine Eq.trans ?_ htrees.symm
    split
    · rfl
    · rw [Option.map_map]
      rfl

end StackScript.Grammar

namespace StackScript

open Grammar

/-- Nothing that the first of two texts leaves behind matters for the second one, which begins
on the line below it: what is told of both is what is told of the second one, further down, and
they are read as a script exactly if the second one is, with the statements of the first and
then those of the second, further down. -/
theorem Script.read_append_newline {file above : String} {s : Script}
    (habove : (Script.read file above).result = some s) {below : String}
    (helse : ∀ t ∈ (TokenStream.ofText file below).words.head?, t.kind ≠ .keywordElse) :
    (Script.read file (above ++ "\n" ++ below)).faults =
        (Script.read file below).faults.map (Diagnostic.moved (.below (linesOf above))) ∧
      (Script.read file (above ++ "\n" ++ below)).result.map Script.statements =
        (Script.read file below).result.map fun t =>
          s.statements ++ t.statements.map (Stmt.moved (.below (linesOf above))) := by
  obtain ⟨hquiet, hderives, hheight, -⟩ :=
    (Script.ofTokens_eq_some_iff (TokenStream.ended_ofText file above) s).1 habove
  have hwords := TokenStream.ahead_eq_plain (TokenStream.faults_eq_nil_iff.1 hquiet).1
  have htokens := TokenStream.ofText_below hquiet below
  rw [hwords] at htokens
  have hnext : (State.ofStream (.ofText file below)).next.kind ≠ .keywordElse := by
    have hended := TokenStream.ended_ofText file below
    rw [next_ofStream]
    cases hwords : (TokenStream.ofText file below).words with
    | nil =>
      rw [List.headD_nil, hended.stop_kind]
      decide
    | cons t ts => exact helse t (by rw [hwords]; rfl)
  unfold Script.read
  rw [htokens]
  exact ofTokens_in_front hderives hheight hnext _

/-- Two texts below one that is right: one with three errors in two statements, two of them
within a function, and one that is right as well. -/
theorem Script.read_append_newline_function :
    let above := "var x = fun()\n{ -y; };"
    let broken := "a = ;\nf(fun() { for; b(,); });"
    ∃ s, (Script.read "f" above).result = some s ∧
      (Script.read "f" broken).faults.size = 3 ∧
      (Script.read "f" (above ++ "\n" ++ broken)).faults =
        (Script.read "f" broken).faults.map (Diagnostic.moved (.below 2)) ∧
      ∃ t, (Script.read "f" "return;").result = some t ∧
        (Script.read "f" (above ++ "\n" ++ "return;")).result.map Script.statements =
          some (s.statements ++ t.statements.map (Stmt.moved (.below 2))) := by
  intro above broken
  obtain ⟨s, hs⟩ := Option.isSome_iff_exists.1
    (show (Script.read "f" above).result.isSome by decide +kernel)
  obtain ⟨t, ht⟩ := Option.isSome_iff_exists.1
    (show (Script.read "f" "return;").result.isSome by decide +kernel)
  have hlines : linesOf above = 2 := by decide +kernel
  have hbroken : ∀ t ∈ (TokenStream.ofText "f" broken).words.head?, t.kind ≠ .keywordElse := by
    decide +kernel
  have hreturn : ∀ t ∈ (TokenStream.ofText "f" "return;").words.head?,
      t.kind ≠ .keywordElse := by decide +kernel
  refine ⟨s, hs, by decide +kernel, ?_, t, ht, ?_⟩
  · rw [← hlines]
    exact (Script.read_append_newline hs hbroken).1
  · have htrees := (Script.read_append_newline hs hreturn).2
    rwa [ht, hlines] at htrees

end StackScript
