import StackScript.Proofs.Grammar.Completeness

/-!
Which texts are read as scripts and as expressions, and what is made of them. The
tokens of a text end where the stream ends and nowhere else, so what is read of them
without anything to tell is all of them.
-/

namespace StackScript

namespace TokenStream

/-- The words before the end of the stream. -/
def words (tokens : TokenStream) : List Token := tokens.ahead.map Scanned.token

/-- What is wrong with the tokens, in their order. -/
def faults (tokens : TokenStream) : List Diagnostic :=
  (tokens.ahead ++ [tokens.stop]).flatMap fun t => t.faults.toList

/-- The stream ends where it says and not before. -/
structure Ended (tokens : TokenStream) : Prop where
  stop_kind : tokens.stop.token.kind = .endOfStream
  ahead_kind : ∀ t ∈ tokens.ahead, t.token.kind ≠ .endOfStream

theorem ended_scan (before : Array Scanned) (c : Cursor)
    (h : ∀ t ∈ before, t.token.kind ≠ .endOfStream) : (scan before c).Ended := by
  fun_induction scan before c with
  | case1 before c next hend => exact ⟨hend, by simpa using h⟩
  | case2 before c next hgo ih =>
    refine ih fun t ht => ?_
    rcases Array.mem_push.1 ht with hmem | rfl
    · exact h t hmem
    · exact hgo

theorem ended_ofText (file text : String) : (ofText file text).Ended :=
  ended_scan #[] (.ofText file text) (by simp)

variable {tokens : TokenStream}

theorem faults_eq_nil_iff :
    tokens.faults = [] ↔ (∀ t ∈ tokens.ahead, t.faults = #[]) ∧ tokens.stop.faults = #[] := by
  simp [faults]

theorem ahead_eq_plain (h : ∀ t ∈ tokens.ahead, t.faults = #[]) :
    tokens.ahead = tokens.words.map Grammar.plain := by
  have hid : tokens.ahead.map (Grammar.plain ∘ Scanned.token) = tokens.ahead.map id :=
    List.map_congr_left fun t ht => (Grammar.eq_plain (h t ht)).symm
  rw [words, List.map_map, hid, List.map_id]

/-- The words of a stream that is given with nothing wrong. -/
theorem quiet_of_ahead {ts : List Token} (hahead : tokens.ahead = ts.map Grammar.plain)
    (hstop : tokens.stop.faults = #[]) : tokens.faults = [] ∧ tokens.words = ts := by
  constructor
  · refine faults_eq_nil_iff.2 ⟨?_, hstop⟩
    intro t ht
    rw [hahead] at ht
    obtain ⟨u, -, rfl⟩ := List.mem_map.1 ht
    rfl
  · rw [words, hahead, List.map_map]
    exact List.map_id ts

end TokenStream

namespace Grammar

variable {α : Type} {rule : Rule α} {tokens : TokenStream}

theorem ofStream_eq_plain (h : tokens.faults = []) :
    State.ofStream tokens = .plain tokens.words tokens.stop.token := by
  obtain ⟨hahead, hstop⟩ := TokenStream.faults_eq_nil_iff.1 h
  exact State.eq_of_fields (TokenStream.ahead_eq_plain hahead) (eq_plain hstop) rfl rfl

theorem run_of_gives {a : α} (h : tokens.faults = [])
    (hrule : rule.Gives tokens.stop.token tokens.words a []) :
    run rule tokens = ⟨some a, #[]⟩ := by
  have hrun := hrule []
  rw [← ofStream_eq_plain h] at hrun
  unfold run Reading.ofOutcome Outcome.state Outcome.result
  rw [hrun]
  rfl

/-- What is made of tokens by a rule that goes on to the end of the stream is made of
all of them. -/
theorem reads_of_run {a : α} {P : List Token → α → Token → Prop} (hended : tokens.Ended)
    (hreads : rule.Reads (State.ofStream tokens).next P)
    (hend : ∀ ts a next, P ts a next → (∃ t ∈ ts, t.kind = .endOfStream) ∨
      next.kind = .endOfStream)
    (hsettles : rule.Settles) (h : (run rule tokens).result = some a) :
    tokens.faults = [] ∧ ∃ next, P tokens.words a next := by
  have hrun := hreads [] (.ofStream tokens) rfl hended.stop_kind
  have hlast := hsettles [] (.ofStream tokens) hended.stop_kind hended.ahead_kind
  unfold run Reading.ofOutcome at h
  generalize rule [] (.ofStream tokens) = o at hrun hlast h
  split at h
  case isTrue => contradiction
  rename_i htold
  have hquiet : o.state.faults = #[] := o.quiet_iff.1 (eq_false_of_ne_true htold)
  obtain ⟨ts, a', ha, hp, hP⟩ := hrun hquiet
  obtain rfl : a' = a := Option.some.inj (ha.symm.trans h)
  have hts : ∀ t ∈ ts, t.kind ≠ .endOfStream := by
    intro t ht
    refine hended.ahead_kind (plain t) ?_
    change plain t ∈ (State.ofStream tokens).ahead
    rw [hp.ahead]
    exact List.mem_append_left _ (List.mem_map_of_mem ht)
  have hnil : o.state.ahead = [] := by
    cases hs : o.state.ahead with
    | nil => rfl
    | cons t rest =>
      rcases hend ts a' _ hP with ⟨t, ht, hkind⟩ | hkind
      · exact absurd hkind (hts t ht)
      · rw [State.next_of_cons hs] at hkind
        refine absurd hkind (hended.ahead_kind t ?_)
        change t ∈ (State.ofStream tokens).ahead
        rw [hp.ahead, hs]
        exact List.mem_append_right _ List.mem_cons_self
  have hahead : tokens.ahead = ts.map plain := by
    have := hp.ahead
    rwa [hnil, List.append_nil] at this
  have hwords : tokens.words = ts := by
    rw [TokenStream.words, hahead, List.map_map]
    exact List.map_id ts
  refine ⟨TokenStream.faults_eq_nil_iff.2 ⟨?_, ?_⟩, o.state.next, by rwa [hwords]⟩
  · intro t ht
    rw [hahead] at ht
    obtain ⟨u, -, rfl⟩ := List.mem_map.1 ht
    rfl
  · have hstop := hlast hquiet hnil
    rw [hp.stop] at hstop
    exact hstop

theorem script_settles : script.Settles := by
  refine Rule.Settles.bind (fun _ => Rule.Reads.peek) fun t => ?_
  have hstatements : (statements false (level maxNesting).statement #[]).Settles :=
    .statements fun first => ((level_sound maxNesting).statement first).mono
      fun ts s next hs => hs.1.ne_nil rfl
  exact hstatements.map

theorem wholeExpression_settles : wholeExpression.Settles :=
  .bind (level_sound maxNesting).expression fun _ => Rule.Settles.require_end.map

/-- Digits among the tokens of a phrase fit their type. -/
theorem Derives.literal_isSome {n : Nat} {ts : List Token} {p : Phrase} (h : Derives n ts p) :
    ∀ t ∈ ts, t.kind = .int ∨ t.kind = .number → t.literal.isSome := by
  induction h with
  | constant ht =>
    intro t hmem hkind
    obtain rfl := List.mem_singleton.1 hmem
    rcases hkind with hkind | hkind <;> simp [constant?, hkind] at ht <;> simp [ht]
  | @connected _ c _ _ _ _ _ _ hs _ ihl ihr =>
    have hc : c.kind ≠ .int ∧ c.kind ≠ .number := by
      obtain op | op := c <;> cases op <;> decide
    simp_all [or_imp, forall_and]
  | @prefixed _ op _ _ _ hs _ ih =>
    have hop : prefixKind op ≠ .int ∧ prefixKind op ≠ .number := by
      cases op <;> decide
    simp_all [or_imp, forall_and]
  | _ => simp_all [or_imp, forall_and]

theorem next_ofStream (tokens : TokenStream) :
    (State.ofStream tokens).next = tokens.words.headD tokens.stop.token := by
  obtain ⟨ahead, stop⟩ := tokens
  cases ahead <;> rfl

end Grammar

open Grammar

/-- A text is read as a script exactly if its tokens have nothing wrong with them and
derive the statements of the script, none of them too high. -/
theorem Script.ofTokens_eq_some_iff {tokens : TokenStream} (hended : tokens.Ended)
    (script : Script) :
    (Script.ofTokens tokens).result = some script ↔
      tokens.faults = [] ∧ Derives maxNesting tokens.words (.statements script.statements) ∧
        (∀ s ∈ script.statements, s.height ≤ maxHeight) ∧
        script.position = (tokens.words.headD tokens.stop.token).position := by
  constructor
  · intro h
    obtain ⟨hquiet, next, hderives, hheight, hposition, -⟩ :=
      reads_of_run hended (script_reads _) (fun ts a next hP => .inr hP.2.2.2) script_settles h
    exact ⟨hquiet, hderives, hheight, by rw [hposition, next_ofStream]⟩
  · rintro ⟨hquiet, hderives, hheight, hposition⟩
    have hrun := run_of_gives hquiet (script_gives hderives hheight hended.stop_kind)
    rw [← hposition] at hrun
    exact congrArg Reading.result hrun

theorem Expr.ofTokens_eq_some_iff {tokens : TokenStream} (hended : tokens.Ended) (e : Expr) :
    (Expr.ofTokens tokens).result = some e ↔
      tokens.faults = [] ∧ Derives maxNesting tokens.words (.expression e) ∧
        e.height ≤ maxHeight := by
  constructor
  · intro h
    obtain ⟨hquiet, next, hP⟩ := reads_of_run hended (wholeExpression_reads _)
      (fun ts a next hP => hP.imp id fun hP => hP.2.2) wholeExpression_settles h
    rcases hP with ⟨t, ht, hkind⟩ | ⟨hderives, hheight, -⟩
    · obtain ⟨u, hu, rfl⟩ := List.mem_map.1 ht
      exact absurd hkind (hended.ahead_kind u hu)
    · exact ⟨hquiet, hderives, hheight⟩
  · rintro ⟨hquiet, hderives, hheight⟩
    have hrun := run_of_gives hquiet (wholeExpression_gives hderives hheight hended.stop_kind)
    exact congrArg Reading.result hrun

/-- Reading accepts exactly the grammar and builds the one right tree: a text gives a
script exactly if nothing is wrong with its tokens, all digits among them fit their
type, and they derive the statements of the script within the limits on nesting and
height. -/
theorem Script.read_eq_some_iff (file text : String) (script : Script) :
    (Script.read file text).result = some script ↔
      (TokenStream.ofText file text).faults = [] ∧
        (∀ t ∈ (TokenStream.ofText file text).words,
          t.kind = .int ∨ t.kind = .number → t.literal.isSome) ∧
        Derives maxNesting (TokenStream.ofText file text).words
          (.statements script.statements) ∧
        (∀ s ∈ script.statements, s.height ≤ maxHeight) ∧
        script.position = ((TokenStream.ofText file text).words.headD
          (TokenStream.ofText file text).stop.token).position := by
  rw [Script.read, Script.ofTokens_eq_some_iff (TokenStream.ended_ofText file text)]
  constructor
  · rintro ⟨hquiet, hderives, hrest⟩
    exact ⟨hquiet, hderives.literal_isSome, hderives, hrest⟩
  · rintro ⟨hquiet, -, hderives, hrest⟩
    exact ⟨hquiet, hderives, hrest⟩

end StackScript
