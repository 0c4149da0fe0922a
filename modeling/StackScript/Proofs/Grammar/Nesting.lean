import StackScript.Proofs.Grammar.Acceptance
import StackScript.Proofs.Grammar.Progress

/-!
How many rules are open inside one another. The rules for statements, expressions and operands
of prefix operators are run once more so that each of them tells where it is opened and where
it is closed. Apart from these marks it is the same run, and at no point of what has been told
are more rules open than may be.
-/

namespace StackScript

/-- Nothing but errors. -/
def AreErrors (faults : Array Diagnostic) : Prop := ∀ d ∈ faults, d.severity = .error

theorem AreErrors.push {faults : Array Diagnostic} (h : AreErrors faults) {d : Diagnostic}
    (hd : d.severity = .error) : AreErrors (faults.push d) := by
  intro d' hd'
  rcases Array.mem_push.1 hd' with hmem | rfl
  · exact h d' hmem
  · exact hd

theorem AreErrors.append {faults more : Array Diagnostic} (h : AreErrors faults)
    (hmore : AreErrors more) : AreErrors (faults ++ more) := by
  intro d hd
  rcases Array.mem_append.1 hd with hd | hd
  · exact h d hd
  · exact hmore d hd

theorem areErrors_empty : AreErrors #[] := by simp [AreErrors]

namespace Lexeme

theorem readString_errors (file : String) (start : Mark) (quote : Char) (m : Mark)
    (more : Nat) (decoded : List Char) (faults : Array Diagnostic) (cs : List Char)
    (h : AreErrors faults) :
    AreErrors (readString file start quote m more decoded faults cs).faults := by
  fun_induction readString file start quote m more decoded faults cs
  case case1 | case2 | case4 => exact h.push rfl
  case case3 => exact h
  case case5 ih | case7 ih => exact ih h
  case case6 ih => exact ih (h.push rfl)

theorem read_errors (file : String) (m : Mark) (first : Char) (cs : List Char) :
    AreErrors (read file m first cs).faults := by
  have honeOrTwo (second : Char) (single double : TokenKind) :
      AreErrors (oneOrTwo second single double cs).faults := by
    unfold oneOrTwo
    split <;> exact areErrors_empty
  unfold read
  split
  case h_23 | h_24 => exact readString_errors _ _ _ _ _ _ _ _ areErrors_empty
  case h_25 =>
    split
    · unfold readNumber
      dsimp only
      split
      · split <;> exact areErrors_empty
      · exact areErrors_empty
    · split
      · exact areErrors_empty
      · exact areErrors_empty.push rfl
  all_goals first
    | exact areErrors_empty
    | exact honeOrTwo _ _ _

end Lexeme

theorem Cursor.nextToken_errors (c : Cursor) : AreErrors c.nextToken.1.faults := by
  unfold nextToken
  generalize Gap.space.skip c.mark c.rest = gap
  obtain ⟨opened, m, rest⟩ := gap
  have hunclosed (start : Mark) :
      AreErrors #[Diagnostic.error (start.position c.file) .endInComment []] :=
    areErrors_empty.push rfl
  cases rest with
  | nil =>
    cases opened with
    | none => exact areErrors_empty
    | some start => exact hunclosed start
  | cons first rest =>
    have hread := Lexeme.read_errors c.file m first rest
    cases opened with
    | none => exact areErrors_empty.append hread
    | some start => exact (hunclosed start).append hread

namespace TokenStream

/-- What is wrong with the tokens are errors. -/
structure HasErrors (tokens : TokenStream) : Prop where
  ahead : ∀ t ∈ tokens.ahead, AreErrors t.faults
  stop : AreErrors tokens.stop.faults

theorem scan_errors (before : Array Scanned) (c : Cursor)
    (h : ∀ t ∈ before, AreErrors t.faults) : (scan before c).HasErrors := by
  fun_induction scan before c with
  | case1 before c next hend => exact ⟨by simpa using h, c.nextToken_errors⟩
  | case2 before c next hgo ih =>
    refine ih fun t ht => ?_
    rcases Array.mem_push.1 ht with hmem | rfl
    · exact h t hmem
    · exact c.nextToken_errors

theorem ofText_errors (file text : String) : (ofText file text).HasErrors :=
  scan_errors #[] (.ofText file text) (by simp)

end TokenStream

namespace Grammar

/-- Tells that a rule is opened. -/
def opening : Diagnostic := .note default default ["opening"]

/-- Tells that a rule is closed. -/
def closing : Diagnostic := .note default default ["closing"]

/-- How many rules have been opened and not been closed. -/
def openRules (entries : List Diagnostic) : Int := entries.count opening - entries.count closing

/-- The entries that are not marks. -/
def unmarked (entries : List Diagnostic) : List Diagnostic :=
  entries.filter fun d => d.severity = .error

/-- Runs a rule between marks. -/
def Rule.marked {α : Type} (rule : Rule α) : Rule α := fun trail s =>
  let o := rule trail (s.tell opening)
  ⟨(o.result, o.state.tell closing),
    ((State.Before.tell s opening).trans o.2.1).trans (.tell _ closing),
    fun hnone => by
      have hlt := o.2.2 hnone
      simp only [State.tell, Array.size_push] at hlt ⊢
      exact Nat.lt_of_succ_lt (Nat.lt_succ_of_lt hlt)⟩

/-- The rules with so many levels left to open, each of them marked. -/
def markedLevel : Nat → Nested
  | 0 => level 0
  | n + 1 =>
    let inner := markedLevel n
    ⟨(statement inner).marked, (expression inner).marked, (unary inner).marked⟩

/-- Some rules are open, and at no point more than may be. -/
structure OpenAt (count : Nat) (entries : List Diagnostic) : Prop where
  now : openRules entries = count
  always : ∀ front, front <+: entries → openRules front ≤ maxNesting

namespace OpenAt

variable {count : Nat} {entries : List Diagnostic} {d : Diagnostic}

theorem concat {count' : Nat} (h : OpenAt count entries)
    (hnow : openRules (entries ++ [d]) = count') (hle : count' ≤ maxNesting) :
    OpenAt count' (entries ++ [d]) where
  now := hnow
  always front hfront := by
    rcases List.prefix_concat_iff.1 hfront with rfl | hfront
    · omega
    · exact h.always front hfront

theorem count_le (h : OpenAt count entries) : count ≤ maxNesting := by
  have hle := h.always entries (List.prefix_refl _)
  rw [h.now] at hle
  omega

theorem error (h : OpenAt count entries) (hd : d.severity = .error) :
    OpenAt count (entries ++ [d]) := by
  have hopening : d ≠ opening := by
    rintro rfl
    contradiction
  have hclosing : d ≠ closing := by
    rintro rfl
    contradiction
  refine h.concat ?_ h.count_le
  rw [← h.now]
  simp [openRules, List.count_append, hopening, hclosing]

theorem opening (h : OpenAt count entries) (hle : count + 1 ≤ maxNesting) :
    OpenAt (count + 1) (entries ++ [Grammar.opening]) := by
  have hnow := h.now
  refine h.concat ?_ hle
  have hne : Grammar.opening ≠ Grammar.closing := by decide
  simp only [openRules, List.count_append, List.count_singleton] at hnow ⊢
  simp [hne]
  omega

theorem closing (h : OpenAt (count + 1) entries) :
    OpenAt count (entries ++ [Grammar.closing]) := by
  have hnow := h.now
  have hle := h.count_le
  refine h.concat ?_ (by omega)
  have hne : Grammar.closing ≠ Grammar.opening := by decide
  simp only [openRules, List.count_append, List.count_singleton] at hnow ⊢
  simp [hne]
  omega

theorem errors (h : OpenAt count entries) {more : List Diagnostic}
    (hmore : ∀ d ∈ more, d.severity = .error) : OpenAt count (entries ++ more) := by
  induction more generalizing entries with
  | nil => rwa [List.append_nil]
  | cons d more ih =>
    obtain ⟨hd, hmore⟩ := List.forall_mem_cons.1 hmore
    rw [List.append_cons]
    exact ih (h.error hd) hmore

end OpenAt

/-- The second state is the first one with marks among what has been told, and so many rules
are open there. -/
structure Watched (count : Nat) (s s' : State) : Prop where
  ahead_eq : s'.ahead = s.ahead
  stop_eq : s'.stop = s.stop
  ahead : ∀ t ∈ s.ahead, AreErrors t.faults
  stop : AreErrors s.stop.faults
  told : unmarked s'.faults.toList = s.faults.toList
  marks : OpenAt count s'.faults.toList

namespace Watched

variable {count : Nat} {s s' : State}

theorem told_append (h : Watched count s s') {faults : Array Diagnostic}
    (hfaults : AreErrors faults) :
    unmarked (s'.faults ++ faults).toList = (s.faults ++ faults).toList ∧
      OpenAt count (s'.faults ++ faults).toList := by
  have herrors : ∀ d ∈ faults.toList, d.severity = .error :=
    fun d hd => hfaults d (Array.mem_toList_iff.1 hd)
  have hkept : unmarked faults.toList = faults.toList :=
    List.filter_eq_self.2 fun d hd => decide_eq_true (herrors d hd)
  rw [Array.toList_append, Array.toList_append]
  refine ⟨?_, h.marks.errors herrors⟩
  have htold := h.told
  unfold unmarked at htold hkept ⊢
  rw [List.filter_append, htold, hkept]

theorem settle (h : Watched count s s') : Watched count s.settle s'.settle := by
  cases hs : s.ahead with
  | nil =>
    have hs' : s'.ahead = [] := h.ahead_eq.trans hs
    obtain ⟨hahead, hstop, hfaults, -⟩ := State.settle_of_nil hs
    obtain ⟨hahead', hstop', hfaults', -⟩ := State.settle_of_nil hs'
    rw [h.stop_eq] at hstop' hfaults'
    obtain ⟨htold, hmarks⟩ := h.told_append h.stop
    refine ⟨hahead'.trans hahead.symm, hstop'.trans hstop.symm, ?_, ?_, ?_, ?_⟩
    · rw [hahead]
      simp
    · rw [hstop]
      exact areErrors_empty
    · rw [hfaults, hfaults', htold]
    · rw [hfaults']
      exact hmarks
  | cons t rest =>
    have hs' : s'.ahead = t :: rest := h.ahead_eq.trans hs
    obtain ⟨hahead, hstop, hfaults, -⟩ := State.settle_of_cons hs
    obtain ⟨hahead', hstop', hfaults', -⟩ := State.settle_of_cons hs'
    have herrors := h.ahead
    rw [hs] at herrors
    obtain ⟨ht, hrest⟩ := List.forall_mem_cons.1 herrors
    obtain ⟨htold, hmarks⟩ := h.told_append ht
    refine ⟨hahead'.trans hahead.symm, ?_, ?_, ?_, ?_, ?_⟩
    · rw [hstop, hstop', h.stop_eq]
    · rw [hahead]
      exact List.forall_mem_cons.2 ⟨areErrors_empty, hrest⟩
    · rw [hstop]
      exact h.stop
    · rw [hfaults, hfaults', htold]
    · rw [hfaults']
      exact hmarks

theorem drop (h : Watched count s s') : Watched count s.drop s'.drop where
  ahead_eq := congrArg List.tail h.ahead_eq
  stop_eq := h.stop_eq
  ahead t ht := h.ahead t (List.mem_of_mem_tail ht)
  stop := h.stop
  told := h.told
  marks := h.marks

theorem tell (h : Watched count s s') {d : Diagnostic} (hd : d.severity = .error) :
    Watched count (s.tell d) (s'.tell d) := by
  obtain ⟨htold, hmarks⟩ := h.told_append (areErrors_empty.push hd)
  exact ⟨h.ahead_eq, h.stop_eq, h.ahead, h.stop, htold, hmarks⟩

theorem opening (h : Watched count s s') (hle : count + 1 ≤ maxNesting) :
    Watched (count + 1) s (s'.tell Grammar.opening) where
  ahead_eq := h.ahead_eq
  stop_eq := h.stop_eq
  ahead := h.ahead
  stop := h.stop
  told := by
    rw [State.tell, Array.toList_push, unmarked, List.filter_append, ← h.told]
    exact List.append_nil _
  marks := by
    rw [State.tell, Array.toList_push]
    exact h.marks.opening hle

theorem closing (h : Watched (count + 1) s s') :
    Watched count s (s'.tell Grammar.closing) where
  ahead_eq := h.ahead_eq
  stop_eq := h.stop_eq
  ahead := h.ahead
  stop := h.stop
  told := by
    rw [State.tell, Array.toList_push, unmarked, List.filter_append, ← h.told]
    exact List.append_nil _
  marks := by
    rw [State.tell, Array.toList_push]
    exact h.marks.closing

end Watched

/-- A run of the rules and the same run with marks, inside so many rules. -/
def Coupling.watched (count : Nat) : Coupling where
  place := id
  holds := Watched count
  left h := by rw [State.left_eq, State.left_eq, h.ahead_eq]
  next {s s'} h := by
    unfold State.next
    rw [h.ahead_eq, h.stop_eq]
    rfl
  settle h := h.settle
  drop h := h.settle.drop
  tell h _ _ _ _ := h.tell rfl

theorem Rule.Coupled.marked {α : Type} {V : α → α → Prop} {rule rule' : Rule α} {count : Nat}
    (hle : count + 1 ≤ maxNesting) (h : rule.Coupled (.watched (count + 1)) V rule') :
    rule.Coupled (.watched count) V rule'.marked := by
  intro trail s s' hs
  obtain ⟨hresult, hstate⟩ := h trail s (s'.tell opening) (Watched.opening hs hle)
  exact ⟨hresult, Watched.closing hstate⟩

/-- Rules with `n` levels left stand inside as many rules as are not left. -/
theorem markedLevel_coupled {n count : Nat} (h : count + n = maxNesting) :
    (level n).Coupled (.watched count) (markedLevel n) := by
  induction n generalizing count with
  | zero => exact level_coupled _ 0
  | succ n ih =>
    -- Each of the three rules opens one more, inside which one level less is left.
    have hrest : count + 1 + n = maxNesting := by omega
    have inner := ih hrest
    refine ⟨?_, ?_, ?_⟩
    · exact (statement_coupled inner).marked (by omega)
    · exact (expression_coupled inner).marked (by omega)
    · exact (unary_coupled inner).marked (by omega)

/-- The start of a run and of the same run with marks. -/
theorem Watched.ofStream {tokens : TokenStream} (h : tokens.HasErrors) :
    Watched 0 (.ofStream tokens) (.ofStream tokens) where
  ahead_eq := rfl
  stop_eq := rfl
  ahead := h.ahead
  stop := h.stop
  told := rfl
  marks := ⟨rfl, fun front hfront => by
    rw [List.prefix_nil.1 hfront]
    decide⟩

end Grammar

open Grammar

/-- A script goes on to the end of the stream. -/
theorem script_finishes (s : State) (hstop : s.stop.token.kind = .endOfStream)
    (trail : List String) :
    (script trail s).result.isSome = true ∧ (script trail s).state.next.kind = .endOfStream := by
  have hfinish := statements_finish (level_progresses maxNesting) (level_advances maxNesting).1
    false #[] trail s.settle (by rwa [s.stop_settle])
  have hrun := scriptOf_run (level maxNesting) trail s
  unfold Outcome.result Outcome.state
  change (scriptOf (level maxNesting) trail s).1.1.isSome = true ∧
    (scriptOf (level maxNesting) trail s).1.2.next.kind = .endOfStream
  rw [hrun]
  obtain ⟨hsome, hend⟩ := hfinish
  refine ⟨by rwa [Option.isSome_map], ?_⟩
  generalize (statements false (level maxNesting).statement #[] trail s.settle).state = last at hend
  revert hend
  unfold endsStatements
  split
  · intro _
    assumption
  · intro hfalse
    contradiction
  · intro hfalse
    contradiction

/-- Only the end of the stream is the end of the stream, so nothing is left in front of it. -/
theorem TokenStream.Ended.ahead_nil {tokens : TokenStream} (h : tokens.Ended)
    (hend : (script [] (.ofStream tokens)).state.next.kind = .endOfStream) :
    (script [] (.ofStream tokens)).state.ahead = [] := by
  have hadvances : script.Advances := .of_coupled fun start => script_coupled (.from start)
  have hlater := hadvances [] (.ofStream tokens)
  cases hs : (script [] (.ofStream tokens)).state.ahead with
  | nil => rfl
  | cons t rest =>
    have hmem : t.token ∈ (script [] (.ofStream tokens)).state.ahead.map Scanned.token := by
      rw [hs]
      exact List.mem_cons_self
    obtain ⟨u, hu, htoken⟩ := List.mem_map.1 (hlater.ahead.subset hmem)
    rw [State.next_of_cons hs, ← htoken] at hend
    exact absurd hend (h.ahead_kind u hu)

/-- Parsing a text ends, and where it ends the end of the stream is next. Each round of a list
of statements takes a token. The marked run is the same run and told the same but for its marks,
and at no point of what it told are more than `maxNesting` rules open. -/
theorem Script.parse_ends (file text : String) :
    let start := State.ofStream (.ofText file text)
    let run := script [] start
    let watched := scriptOf (markedLevel maxNesting) [] start
    (run.result.isSome = true ∧ run.state.ahead = [] ∧ run.state.next.kind = .endOfStream) ∧
      (∀ n, (level n).statement.Progresses) ∧
      (watched.result = run.result ∧
        unmarked watched.state.faults.toList = run.state.faults.toList ∧
        ∀ front, front <+: watched.state.faults.toList → openRules front ≤ maxNesting) := by
  intro start run watched
  have hended := TokenStream.ended_ofText file text
  obtain ⟨hsome, hend⟩ := script_finishes start hended.stop_kind []
  have hwatched := scriptOf_coupled_eq rfl (markedLevel_coupled (Nat.zero_add maxNesting)) []
    start start (Watched.ofStream (TokenStream.ofText_errors file text))
  have hmarked : Watched 0 run.state watched.state := hwatched.2
  exact ⟨⟨hsome, hended.ahead_nil hend, hend⟩, level_progresses,
    hwatched.result_eq, hmarked.told, hmarked.marks.always⟩

end StackScript
