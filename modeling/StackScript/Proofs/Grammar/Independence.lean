import StackScript.Proofs.Grammar.Coupling

/-!
Rules do not look at what has been told. A rule that is started behind earlier entries
takes the same tokens, makes the same of them and tells the same, behind those entries.
Rules are functions of the whole state, so this is not in their type: it is a coupling of
the two runs.
-/

namespace StackScript.Grammar

variable {α β : Type}

namespace State

/-- The same place, behind entries that were told before. -/
def behind (earlier : Array Diagnostic) (s : State) : State :=
  { s with faults := earlier ++ s.faults }

variable (earlier : Array Diagnostic) (s : State)

@[simp] theorem stop_behind : (s.behind earlier).stop = s.stop := rfl

@[simp] theorem faults_behind : (s.behind earlier).faults = earlier ++ s.faults := rfl

@[simp] theorem drop_behind : (s.behind earlier).drop = s.drop.behind earlier := rfl

@[simp] theorem settle_behind : (s.behind earlier).settle = s.settle.behind earlier := by
  cases hs : s.ahead with
  | nil =>
    obtain ⟨hahead, hstop, hfaults, htold⟩ := settle_of_nil hs
    obtain ⟨hahead', hstop', hfaults', htold'⟩ := settle_of_nil (s := s.behind earlier) hs
    refine eq_of_fields (hahead'.trans hahead.symm) (hstop'.trans hstop.symm) ?_
      (htold'.trans htold.symm)
    rw [hfaults', faults_behind, faults_behind, hfaults, stop_behind, Array.append_assoc]
  | cons t rest =>
    obtain ⟨hahead, hstop, hfaults, htold⟩ := settle_of_cons hs
    obtain ⟨hahead', hstop', hfaults', htold'⟩ := settle_of_cons (s := s.behind earlier) hs
    refine eq_of_fields (hahead'.trans hahead.symm) (hstop'.trans hstop.symm) ?_
      (htold'.trans htold.symm)
    rw [hfaults', faults_behind, faults_behind, hfaults, Array.append_assoc]

end State

namespace Rule

/-- What a rule leaves behind earlier entries is what it leaves without them, behind
those entries. -/
def ObliviousAt (rule : Rule α) (trail : List String) (s : State) : Prop :=
  ∀ earlier, (rule trail (s.behind earlier)).1 =
    ((rule trail s).result, (rule trail s).state.behind earlier)

def Oblivious (rule : Rule α) : Prop := ∀ trail s, rule.ObliviousAt trail s

end Rule

/-- Runs of which one starts behind earlier entries. -/
def Coupling.behind (earlier : Array Diagnostic) : Coupling where
  place := id
  holds s s' := s' = s.behind earlier
  left := by
    rintro s _ rfl
    rfl
  next := by
    rintro s _ rfl
    rfl
  settle := by
    rintro s _ rfl
    exact s.settle_behind earlier
  drop := by
    rintro s _ rfl
    rw [State.settle_behind, State.drop_behind]
  tell := by
    rintro s _ rfl position fault arguments trail
    exact State.eq_of_fields rfl rfl Array.append_push.symm rfl

theorem Rule.Oblivious.of_coupled {rule : Rule α}
    (h : ∀ earlier, rule.Coupled (.behind earlier) Eq rule) : rule.Oblivious := by
  intro trail s earlier
  have hrun := h earlier trail s _ rfl
  exact Prod.ext hrun.result_eq hrun.2

theorem script_oblivious : script.Oblivious :=
  .of_coupled fun earlier => scriptOf_coupled_eq rfl (level_coupled (.behind earlier) maxNesting)

theorem wholeExpression_oblivious : wholeExpression.Oblivious := by
  refine .of_coupled fun earlier => (wholeExpression_coupled (.behind earlier)).mono ?_
  rintro e e' rfl
  exact e.moved_id.symm

end StackScript.Grammar
