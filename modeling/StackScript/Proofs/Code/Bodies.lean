import StackScript.Proofs.Code.Heights

/-!
Where the bodies of functions lie in the code of a script. A body stands inside the code
around it, which jumps over it, so an address can lie in several bodies, each inside the
next. The bodies of the functions written in a part of a script lie between the ends of
the part.
-/

namespace StackScript

/-- The code of the body of a function, from its first instruction to the return at its
end. -/
structure Body where
  first : Nat
  last : Nat
  deriving DecidableEq

namespace Body

def Holds (b : Body) (pc : Nat) : Prop := b.first ≤ pc ∧ pc ≤ b.last

/-- One body belongs to a function that is written inside the other. -/
def Inside (b b' : Body) : Prop := b'.first < b.first ∧ b.last < b'.last

end Body

def Scope.calleeBodies (s : Scope) (callee : Expr) (bodies : Scope → List Body) : List Body :=
  match s.callee? callee with
  | some _ => []
  | none => bodies s

mutual

/-- The bodies of the functions written in an expression that stands at this place. -/
def Expr.bodies (s : Scope) : Expr → List Body
  | .literal _ _ | .name _ _ | .index _ _ _ | .member _ _ _ => []
  | .group inner _ => inner.bodies s
  | .unary _ operand _ => operand.bodies s
  | .binary _ left right _ => left.bodies s ++ right.bodies (left.behind s)
  | .logical op left right _ => left.bodies s ++ right.bodies ((left.behind s).skip op.gap)
  | .function body _ =>
    ⟨s.address + 1, (body.behind (s.skip 1)).address⟩ :: body.bodies (s.skip 1)
  | .call callee arguments _ =>
    argumentsBodies s arguments ++
      (argumentsBehind s arguments).calleeBodies callee fun s => callee.bodies s

def argumentsBodies (s : Scope) : List Expr → List Body
  | [] => []
  | e :: es => e.bodies s ++ argumentsBodies (e.behind s) es

/-- The bodies of the functions written in a statement that stands at this place. -/
def Stmt.bodies (s : Scope) : Stmt → List Body
  | .empty _ | .returnNull _ => []
  | .declare name value _ => value.bodies (s.declare name)
  | .block body _ => statementsBodies s body
  | .returnValue value _ => value.bodies s
  | .ifThen condition body _ =>
    condition.bodies s ++ body.bodies ((condition.behind s).skip 2)
  | .ifElse condition body other _ =>
    condition.bodies s ++ (body.bodies ((condition.behind s).skip 2) ++
      other.bodies ((body.behind ((condition.behind s).skip 2)).skip 1))
  | .whileDo condition body _ =>
    condition.bodies s ++ body.bodies ((condition.behind s).skip 2)
  | .expression (.call callee arguments _) _ =>
    argumentsBodies s arguments ++
      (argumentsBehind s arguments).calleeBodies callee fun s => callee.bodies s
  | .expression value _ => value.bodies s
  | .assign (.name _ _) value _ => value.bodies s
  | .assign _ _ _ => []

def statementsBodies (s : Scope) : List Stmt → List Body
  | [] => []
  | t :: ts => t.bodies s ++ statementsBodies (t.behind s) ts

end

/-- The bodies of all functions written in a script. -/
def Script.bodies (script : Script) : List Body := script.root.bodies {}

section Parts

variable {code : Code} {s : Scope}

theorem Expr.Laid.passes {e : Expr} (h : e.Laid code s) (height : Nat) :
    code.Passes (e.behind s).address s.address height (e.behind s).address (height + 1) :=
  (laid_checks code).expr e s _ height h (Nat.le_refl _)

theorem Stmt.Laid.passes {t : Stmt} (h : t.Laid code s) (height : Nat) :
    code.Passes (t.behind s).address s.address height (t.behind s).address height :=
  (laid_checks code).stmt t s _ height h (Nat.le_refl _)

theorem ArgumentsLaid.passes {es : List Expr} (h : ArgumentsLaid code s es) (height : Nat) :
    code.Passes (argumentsBehind s es).address s.address height
      (argumentsBehind s es).address (height + es.length) :=
  arguments_check (fun e _ => (laid_checks code).expr e) h (Nat.le_refl _)

theorem StatementsLaid.passes {ts : List Stmt} (h : StatementsLaid code s ts) (height : Nat) :
    code.Passes (statementsBehind s ts).address s.address height
      (statementsBehind s ts).address height :=
  statements_check (fun t _ => (laid_checks code).stmt t) h (Nat.le_refl _)

theorem Expr.Laid.le {e : Expr} (h : e.Laid code s) : s.address ≤ (e.behind s).address :=
  (h.passes 0).first_le

theorem Stmt.Laid.le {t : Stmt} (h : t.Laid code s) : s.address ≤ (t.behind s).address :=
  (h.passes 0).first_le

theorem ArgumentsLaid.le {es : List Expr} (h : ArgumentsLaid code s es) :
    s.address ≤ (argumentsBehind s es).address :=
  (h.passes 0).first_le

theorem StatementsLaid.le {ts : List Stmt} (h : StatementsLaid code s ts) :
    s.address ≤ (statementsBehind s ts).address :=
  (h.passes 0).first_le

end Parts

section Lying

/-- The body is that of a function that is laid out between two addresses. -/
def Body.Lies (code : Code) (first last : Nat) (b : Body) : Prop :=
  ∃ body p s, (Expr.function body p).Laid code s ∧
    b = ⟨s.address + 1, (body.behind (s.skip 1)).address⟩ ∧
    first ≤ s.address ∧ ((Expr.function body p).behind s).address ≤ last

/-- All the bodies are those of functions that are laid out between two addresses. -/
def Lie (code : Code) (first last : Nat) (bodies : List Body) : Prop :=
  ∀ b ∈ bodies, b.Lies code first last

variable {code : Code} {first last first' last' : Nat} {own own' : List Body}

theorem Lie.nil : Lie code first last [] := by
  intro b hb
  cases hb

theorem Lie.mono (h : Lie code first' last' own) (hfirst : first ≤ first') (hlast : last' ≤ last) :
    Lie code first last own := by
  intro b hb
  obtain ⟨body, p, s, hlaid, heq, hle, hle'⟩ := h b hb
  exact ⟨body, p, s, hlaid, heq, Nat.le_trans hfirst hle, Nat.le_trans hle' hlast⟩

theorem Lie.append (h : Lie code first last own) (h' : Lie code first last own') :
    Lie code first last (own ++ own') := by
  intro b hb
  rcases List.mem_append.1 hb with hb | hb
  · exact h b hb
  · exact h' b hb

def Expr.BodiesLie (code : Code) (e : Expr) : Prop :=
  ∀ s, e.Laid code s → Lie code s.address (e.behind s).address (e.bodies s)

def Stmt.BodiesLie (code : Code) (t : Stmt) : Prop :=
  ∀ s, t.Laid code s → Lie code s.address (t.behind s).address (t.bodies s)

theorem argumentsBodies_lie {es : List Expr} (h : ∀ e ∈ es, e.BodiesLie code) {s : Scope}
    (hlaid : ArgumentsLaid code s es) :
    Lie code s.address (argumentsBehind s es).address (argumentsBodies s es) := by
  induction es generalizing s with
  | nil => exact .nil
  | cons e es ih =>
    obtain ⟨he, hes⟩ := List.forall_mem_cons.1 h
    obtain ⟨hlaid, hlaid'⟩ := hlaid
    have hfirst := (he s hlaid).mono (Nat.le_refl _) hlaid'.le
    exact hfirst.append ((ih hes hlaid').mono hlaid.le (Nat.le_refl _))

theorem statementsBodies_lie {ts : List Stmt} (h : ∀ t ∈ ts, t.BodiesLie code) {s : Scope}
    (hlaid : StatementsLaid code s ts) :
    Lie code s.address (statementsBehind s ts).address (statementsBodies s ts) := by
  induction ts generalizing s with
  | nil => exact .nil
  | cons t ts ih =>
    obtain ⟨ht, hts⟩ := List.forall_mem_cons.1 h
    obtain ⟨hlaid, hlaid'⟩ := hlaid
    have hfirst := (ht s hlaid).mono (Nat.le_refl _) hlaid'.le
    exact hfirst.append ((ih hts hlaid').mono hlaid.le (Nat.le_refl _))

theorem calleeBodies_lie {callee : Expr} (h : callee.BodiesLie code) {s : Scope}
    (hlaid : code.HoldsCallee s callee (callee.Laid code s)) :
    s.address ≤ (s.behindCallee callee fun s => callee.behind s).address ∧
      Lie code s.address (s.behindCallee callee fun s => callee.behind s).address
        (s.calleeBodies callee fun s => callee.bodies s) := by
  unfold Scope.behindCallee Scope.calleeBodies Code.HoldsCallee at *
  cases hnamed : s.callee? callee with
  | some named => exact ⟨Nat.le_add_right _ _, .nil⟩
  | none =>
    simp only [hnamed] at hlaid ⊢
    exact ⟨hlaid.le, h s hlaid⟩

/-- The bodies in the arguments of a call and in its callee. -/
theorem callBodies_lie {callee : Expr} {arguments : List Expr} (hc : callee.BodiesLie code)
    (h : ∀ e ∈ arguments, e.BodiesLie code) {s : Scope}
    (hlaid : ArgumentsLaid code s arguments)
    (hcallee : code.HoldsCallee (argumentsBehind s arguments) callee
      (callee.Laid code (argumentsBehind s arguments))) :
    Lie code s.address
      ((argumentsBehind s arguments).behindCallee callee fun s => callee.behind s).address
      (argumentsBodies s arguments ++
        (argumentsBehind s arguments).calleeBodies callee fun s => callee.bodies s) := by
  obtain ⟨hle, hlie⟩ := calleeBodies_lie hc hcallee
  have harguments := (argumentsBodies_lie h hlaid).mono (Nat.le_refl _) hle
  exact harguments.append (hlie.mono hlaid.le (Nat.le_refl _))

theorem bodies_lie (code : Code) : Tree.Cases (Expr.BodiesLie code) (Stmt.BodiesLie code) where
  literal value p s _ := .nil
  name text p s _ := .nil
  group inner p h s hlaid := h s hlaid
  unary op operand p h s hlaid := (h s hlaid.1).mono (Nat.le_refl _) (Nat.le_succ _)
  binary op left right p hleft hright s hlaid := by
    obtain ⟨hlaid, hlaid', -⟩ := hlaid
    have hle := hlaid.le
    have hle' := hlaid'.le
    rw [Expr.behind, Scope.address_skip]
    exact ((hleft s hlaid).mono (Nat.le_refl _) (by omega)).append
      ((hright _ hlaid').mono hle (Nat.le_succ _))
  logical op left right p hleft hright s hlaid := by
    obtain ⟨hlaid, -, hlaid', -⟩ := hlaid
    have hle := hlaid.le
    have hle' := hlaid'.le
    rw [Scope.address_skip] at hle'
    have hright := hright _ hlaid'
    rw [Scope.address_skip] at hright
    rw [Expr.behind, Scope.address_skip]
    exact ((hleft s hlaid).mono (Nat.le_refl _) (by omega)).append
      (hright.mono (by omega) (by omega))
  function body p h s hlaid := by
    obtain ⟨-, hbody, -⟩ := id hlaid
    have hle := hbody.le
    rw [Scope.address_skip] at hle
    have hinner := h _ hbody
    rw [Scope.address_skip] at hinner
    intro b hb
    rcases List.mem_cons.1 hb with rfl | hb
    · exact ⟨body, p, s, hlaid, rfl, Nat.le_refl _, Nat.le_refl _⟩
    · rw [Expr.behind, Scope.address_skip]
      exact hinner.mono (Nat.le_succ _) (by omega) b hb
  call callee arguments p hc h s hlaid := by
    obtain ⟨hlaid, hcallee, -⟩ := hlaid
    exact (callBodies_lie hc h hlaid hcallee).mono (Nat.le_refl _) (Nat.le_succ _)
  index callee arguments p _ _ s hlaid := hlaid.elim
  member parent child p _ _ s _ := .nil
  empty p s _ := .nil
  declare name value p h s hlaid := by
    obtain ⟨hlaid, -⟩ := hlaid
    have hvalue := h _ hlaid
    rw [Scope.address_declare] at hvalue
    exact hvalue.mono (Nat.le_refl _) (Nat.le_succ _)
  block body p h s hlaid := statementsBodies_lie h hlaid
  returnNull p s _ := .nil
  returnValue value p h s hlaid := (h s hlaid.1).mono (Nat.le_refl _) (Nat.le_succ _)
  ifThen condition body p hcondition hbody s hlaid := by
    obtain ⟨hlaid, -, hlaid'⟩ := hlaid
    have hle := hlaid.le
    have hle' := hlaid'.le
    rw [Scope.address_skip] at hle'
    have hbody := hbody _ hlaid'
    rw [Scope.address_skip] at hbody
    rw [Stmt.behind]
    exact ((hcondition s hlaid).mono (Nat.le_refl _) (by omega)).append
      (hbody.mono (by omega) (Nat.le_refl _))
  ifElse condition body other p hcondition hbody hother s hlaid := by
    obtain ⟨hlaid, -, hlaid', -, hlaid''⟩ := hlaid
    have hle := hlaid.le
    have hle' := hlaid'.le
    have hle'' := hlaid''.le
    rw [Scope.address_skip] at hle' hle''
    have hbody := hbody _ hlaid'
    have hother := hother _ hlaid''
    rw [Scope.address_skip] at hbody hother
    rw [Stmt.behind]
    exact ((hcondition s hlaid).mono (Nat.le_refl _) (by omega)).append
      ((hbody.mono (by omega) (by omega)).append (hother.mono (by omega) (Nat.le_refl _)))
  whileDo condition body p hcondition hbody s hlaid := by
    obtain ⟨hlaid, -, hlaid', -⟩ := hlaid
    have hle := hlaid.le
    have hle' := hlaid'.le
    rw [Scope.address_skip] at hle'
    have hbody := hbody _ hlaid'
    rw [Scope.address_skip] at hbody
    rw [Stmt.behind, Scope.address_skip]
    exact ((hcondition s hlaid).mono (Nat.le_refl _) (by omega)).append
      (hbody.mono (by omega) (Nat.le_succ _))
  discard callee arguments q p hc h s hlaid := by
    obtain ⟨hlaid, hcallee, -⟩ := hlaid
    exact (callBodies_lie hc h hlaid hcallee).mono (Nat.le_refl _) (Nat.le_succ _)
  value value p hcall h s hlaid := by
    rw [Stmt.Laid] at hlaid
    · rw [Stmt.behind, Stmt.bodies, Scope.address_skip]
      · exact (h s hlaid.1).mono (Nat.le_refl _) (Nat.le_succ _)
      all_goals exact hcall
    · exact hcall
  assign text q value p h s hlaid := (h s hlaid.1).mono (Nat.le_refl _) (Nat.le_succ _)
  assignOther target value p hname _ _ s hlaid := by
    rw [Stmt.Laid] at hlaid
    · exact hlaid.elim
    · exact hname

theorem Expr.Laid.lie {e : Expr} {s : Scope} (h : e.Laid code s) :
    Lie code s.address (e.behind s).address (e.bodies s) :=
  (bodies_lie code).expr e s h

theorem Stmt.Laid.lie {t : Stmt} {s : Scope} (h : t.Laid code s) :
    Lie code s.address (t.behind s).address (t.bodies s) :=
  (bodies_lie code).stmt t s h

theorem ArgumentsLaid.lie {es : List Expr} {s : Scope} (h : ArgumentsLaid code s es) :
    Lie code s.address (argumentsBehind s es).address (argumentsBodies s es) :=
  argumentsBodies_lie (fun e _ => (bodies_lie code).expr e) h

theorem StatementsLaid.lie {ts : List Stmt} {s : Scope} (h : StatementsLaid code s ts) :
    Lie code s.address (statementsBehind s ts).address (statementsBodies s ts) :=
  statementsBodies_lie (fun t _ => (bodies_lie code).stmt t) h

end Lying

section Bounds

variable {code : Code} {first last pc : Nat} {b : Body} {own own' : List Body}

theorem Body.Lies.bounds (h : b.Lies code first last) :
    first < b.first ∧ b.first ≤ b.last ∧ b.last + 1 < last := by
  obtain ⟨body, p, s, ⟨-, hbody, -⟩, rfl, hfirst, hlast⟩ := h
  have hle := hbody.le
  rw [Scope.address_skip] at hle
  rw [Expr.behind, Scope.address_skip] at hlast
  dsimp only
  omega

/-- A body alone passes the scan of the stack, from an empty stack to an empty stack. -/
theorem Body.Lies.passes (h : b.Lies code first last) :
    code.Passes b.last b.first 0 (b.last + 1) 0 := by
  obtain ⟨body, p, s, ⟨-, hbody, hret, -⟩, rfl, -⟩ := h
  exact (hbody.passes 0).trans (.leave hret (Nat.zero_le 1))

/-- Outside of a part none of its bodies holds an address, nor at its ends. -/
theorem Lie.clear (h : Lie code first last own) (hpc : pc ≤ first ∨ last ≤ pc) :
    ∀ b ∈ own, ¬b.Holds pc := by
  intro b hb
  have hbounds := (h b hb).bounds
  unfold Body.Holds
  omega

theorem clear_append (h : ∀ b ∈ own, ¬b.Holds pc) (h' : ∀ b ∈ own', ¬b.Holds pc) :
    ∀ b ∈ own ++ own', ¬b.Holds pc := by
  intro b hb
  rcases List.mem_append.1 hb with hb | hb
  · exact h b hb
  · exact h' b hb

end Bounds

end StackScript
