import StackScript.Proofs.Code.Bodies

/-!
The `return` statements of a script, with the addresses of their instructions. A `return`
is written inside a function exactly if its instruction lies in a body.
-/

namespace StackScript

/-- A `return` statement. -/
structure Return where
  address : Nat
  /-- Whether it is written inside a function. -/
  inside : Bool
  deriving DecidableEq

def Scope.calleeReturns (s : Scope) (callee : Expr) (returns : Scope → List Return) :
    List Return :=
  match s.callee? callee with
  | some _ => []
  | none => returns s

mutual

/-- The `return` statements written in an expression, which may itself be written inside a
function. -/
def Expr.returns (inside : Bool) (s : Scope) : Expr → List Return
  | .literal _ _ | .name _ _ | .index _ _ _ | .member _ _ _ => []
  | .group inner _ => inner.returns inside s
  | .unary _ operand _ => operand.returns inside s
  | .binary _ left right _ => left.returns inside s ++ right.returns inside (left.behind s)
  | .logical op left right _ =>
    left.returns inside s ++ right.returns inside ((left.behind s).skip op.gap)
  | .function body _ => body.returns true (s.skip 1)
  | .call callee arguments _ =>
    argumentsReturns inside s arguments ++
      (argumentsBehind s arguments).calleeReturns callee fun s => callee.returns inside s

def argumentsReturns (inside : Bool) (s : Scope) : List Expr → List Return
  | [] => []
  | e :: es => e.returns inside s ++ argumentsReturns inside (e.behind s) es

/-- The `return` statements written in a statement. -/
def Stmt.returns (inside : Bool) (s : Scope) : Stmt → List Return
  | .empty _ => []
  | .declare name value _ => value.returns inside (s.declare name)
  | .block body _ => statementsReturns inside s body
  | .returnNull _ => [⟨s.address, inside⟩]
  | .returnValue value _ => value.returns inside s ++ [⟨(value.behind s).address, inside⟩]
  | .ifThen condition body _ =>
    condition.returns inside s ++ body.returns inside ((condition.behind s).skip 2)
  | .ifElse condition body other _ =>
    condition.returns inside s ++ (body.returns inside ((condition.behind s).skip 2) ++
      other.returns inside ((body.behind ((condition.behind s).skip 2)).skip 1))
  | .whileDo condition body _ =>
    condition.returns inside s ++ body.returns inside ((condition.behind s).skip 2)
  | .expression (.call callee arguments _) _ =>
    argumentsReturns inside s arguments ++
      (argumentsBehind s arguments).calleeReturns callee fun s => callee.returns inside s
  | .expression value _ => value.returns inside s
  | .assign (.name _ _) value _ => value.returns inside s
  | .assign _ _ _ => []

def statementsReturns (inside : Bool) (s : Scope) : List Stmt → List Return
  | [] => []
  | t :: ts => t.returns inside s ++ statementsReturns inside (t.behind s) ts

end

def Script.returns (script : Script) : List Return := script.root.returns false {}

/-- The statement has its instruction between two addresses, and lies in one of the bodies
there if it is not inside a function anyway. -/
structure Return.Lies (code : Code) (first last : Nat) (own : List Body) (inside : Bool)
    (r : Return) : Prop where
  ret : ∃ operand, code.instructions[r.address]? = some ⟨.ret, operand⟩
  first_le : first ≤ r.address
  lt_last : r.address < last
  inside_iff : r.inside = true ↔ inside = true ∨ ∃ b ∈ own, b.Holds r.address

section Lying

variable {code : Code} {inside : Bool} {first last middle middle' first' last' : Nat}
  {own own' : List Body} {rs rs' : List Return}

def ReturnsLie (code : Code) (first last : Nat) (own : List Body) (inside : Bool)
    (rs : List Return) : Prop :=
  ∀ r ∈ rs, r.Lies code first last own inside

namespace ReturnsLie

theorem nil : ReturnsLie code first last own inside [] := by
  intro r hr
  cases hr

theorem mono (h : ReturnsLie code first' last' own inside rs) (hfirst : first ≤ first')
    (hlast : last' ≤ last) : ReturnsLie code first last own inside rs := by
  intro r hr
  obtain ⟨hret, hle, hlt, hinside⟩ := h r hr
  exact ⟨hret, Nat.le_trans hfirst hle, Nat.lt_of_lt_of_le hlt hlast, hinside⟩

theorem one {address n : Nat} {p : Position} (h : code.Holds address .ret n p) :
    ReturnsLie code address (address + 1) [] inside [⟨address, inside⟩] := by
  intro r hr
  obtain rfl := List.mem_singleton.1 hr
  obtain ⟨operand, hc, -⟩ := h
  exact ⟨⟨operand, hc⟩, Nat.le_refl _, Nat.lt_succ_self _, by simp⟩

/-- Two parts that stand behind one another. Each return is clear of the bodies of the
other part. -/
theorem append (h : ReturnsLie code first middle own inside rs)
    (h' : ReturnsLie code middle' last own' inside rs') (hlie : Lie code first middle own)
    (hlie' : Lie code middle' last own') (hle : middle ≤ middle') (hfirst : first ≤ middle)
    (hlast : middle' ≤ last) : ReturnsLie code first last (own ++ own') inside (rs ++ rs') := by
  intro r hr
  rcases List.mem_append.1 hr with hr | hr
  · obtain ⟨hret, hge, hlt, hinside⟩ := h r hr
    have hclear : ∀ b ∈ own', ¬b.Holds r.address := hlie'.clear (.inl (by omega))
    refine ⟨hret, hge, by omega, hinside.trans (or_congr_right ?_)⟩
    simp only [List.mem_append, or_and_right, exists_or]
    exact (or_iff_left fun ⟨b, hb, hholds⟩ => hclear b hb hholds).symm
  · obtain ⟨hret, hge, hlt, hinside⟩ := h' r hr
    have hclear : ∀ b ∈ own, ¬b.Holds r.address := hlie.clear (.inr (by omega))
    refine ⟨hret, by omega, hlt, hinside.trans (or_congr_right ?_)⟩
    simp only [List.mem_append, or_and_right, exists_or]
    exact (or_iff_right fun ⟨b, hb, hholds⟩ => hclear b hb hholds).symm

end ReturnsLie

def Expr.ReturnsLie (code : Code) (e : Expr) : Prop :=
  ∀ s inside, e.Laid code s →
    StackScript.ReturnsLie code s.address (e.behind s).address (e.bodies s) inside
      (e.returns inside s)

def Stmt.ReturnsLie (code : Code) (t : Stmt) : Prop :=
  ∀ s inside, t.Laid code s →
    StackScript.ReturnsLie code s.address (t.behind s).address (t.bodies s) inside
      (t.returns inside s)

theorem argumentsReturns_lie {es : List Expr} (h : ∀ e ∈ es, e.ReturnsLie code) {s : Scope}
    (hlaid : ArgumentsLaid code s es) :
    ReturnsLie code s.address (argumentsBehind s es).address (argumentsBodies s es) inside
      (argumentsReturns inside s es) := by
  induction es generalizing s with
  | nil => exact .nil
  | cons e es ih =>
    obtain ⟨he, hes⟩ := List.forall_mem_cons.1 h
    obtain ⟨hlaid, hlaid'⟩ := hlaid
    exact (he s inside hlaid).append (ih hes hlaid') hlaid.lie hlaid'.lie (Nat.le_refl _)
      hlaid.le hlaid'.le

theorem statementsReturns_lie {ts : List Stmt} (h : ∀ t ∈ ts, t.ReturnsLie code) {s : Scope}
    (hlaid : StatementsLaid code s ts) :
    ReturnsLie code s.address (statementsBehind s ts).address (statementsBodies s ts) inside
      (statementsReturns inside s ts) := by
  induction ts generalizing s with
  | nil => exact .nil
  | cons t ts ih =>
    obtain ⟨ht, hts⟩ := List.forall_mem_cons.1 h
    obtain ⟨hlaid, hlaid'⟩ := hlaid
    exact (ht s inside hlaid).append (ih hts hlaid') hlaid.lie hlaid'.lie (Nat.le_refl _)
      hlaid.le hlaid'.le

/-- The `return` statements in the arguments of a call and in its callee. -/
theorem callReturns_lie {callee : Expr} {arguments : List Expr} (hc : callee.ReturnsLie code)
    (h : ∀ e ∈ arguments, e.ReturnsLie code) {s : Scope}
    (hlaid : ArgumentsLaid code s arguments)
    (hcallee : code.HoldsCallee (argumentsBehind s arguments) callee
      (callee.Laid code (argumentsBehind s arguments))) :
    ReturnsLie code s.address
      ((argumentsBehind s arguments).behindCallee callee fun s => callee.behind s).address
      (argumentsBodies s arguments ++
        (argumentsBehind s arguments).calleeBodies callee fun s => callee.bodies s) inside
      (argumentsReturns inside s arguments ++
        (argumentsBehind s arguments).calleeReturns callee fun s => callee.returns inside s) := by
  obtain ⟨hle, hlie⟩ := calleeBodies_lie ((bodies_lie code).expr callee) hcallee
  refine (argumentsReturns_lie h hlaid).append ?_ hlaid.lie hlie (Nat.le_refl _) hlaid.le hle
  unfold Scope.behindCallee Scope.calleeBodies Scope.calleeReturns Code.HoldsCallee at *
  cases hnamed : (argumentsBehind s arguments).callee? callee with
  | some named => exact .nil
  | none =>
    simp only [hnamed] at hcallee ⊢
    exact hc _ inside hcallee

theorem returns_lie (code : Code) : Tree.Cases (Expr.ReturnsLie code) (Stmt.ReturnsLie code) where
  literal value p s inside _ := .nil
  name text p s inside _ := .nil
  group inner p h s inside hlaid := h s inside hlaid
  unary op operand p h s inside hlaid :=
    (h s inside hlaid.1).mono (Nat.le_refl _) (Nat.le_succ _)
  binary op left right p hleft hright s inside hlaid := by
    obtain ⟨hlaid, hlaid', -⟩ := hlaid
    have hboth := (hleft s inside hlaid).append (hright _ inside hlaid') hlaid.lie hlaid'.lie
      (Nat.le_refl _) hlaid.le hlaid'.le
    exact hboth.mono (Nat.le_refl _) (Nat.le_succ _)
  logical op left right p hleft hright s inside hlaid := by
    obtain ⟨hlaid, -, hlaid', -⟩ := hlaid
    have hboth := (hleft s inside hlaid).append (hright _ inside hlaid') hlaid.lie hlaid'.lie
      (Nat.le_add_right _ _) hlaid.le hlaid'.le
    exact hboth.mono (Nat.le_refl _) (Nat.le_add_right _ _)
  function body p h s inside hlaid := by
    obtain ⟨-, hlaid, -⟩ := hlaid
    have hbody := h _ true hlaid
    rw [Scope.address_skip] at hbody
    intro r hr
    obtain ⟨hret, hle, hlt, hinside⟩ := hbody r hr
    rw [Expr.behind, Scope.address_skip]
    have hholds : (Body.mk (s.address + 1) (body.behind (s.skip 1)).address).Holds r.address :=
      ⟨hle, Nat.le_of_lt hlt⟩
    exact ⟨hret, by omega, by omega, iff_of_true (hinside.2 (.inl rfl))
      (.inr ⟨_, List.mem_cons_self, hholds⟩)⟩
  call callee arguments p hc h s inside hlaid := by
    obtain ⟨hlaid, hcallee, -⟩ := hlaid
    exact (callReturns_lie hc h hlaid hcallee).mono (Nat.le_refl _) (Nat.le_succ _)
  index callee arguments p _ _ s inside hlaid := hlaid.elim
  member parent child p _ _ s inside _ := .nil
  empty p s inside _ := .nil
  declare name value p h s inside hlaid := by
    have hvalue := h _ inside hlaid.1
    rw [Scope.address_declare] at hvalue
    exact hvalue.mono (Nat.le_refl _) (Nat.le_succ _)
  block body p h s inside hlaid := statementsReturns_lie h hlaid
  returnNull p s inside hlaid := .one hlaid
  returnValue value p h s inside hlaid := by
    obtain ⟨hlaid, hret⟩ := hlaid
    have hboth := (h s inside hlaid).append (.one hret) hlaid.lie .nil (Nat.le_refl _) hlaid.le
      (Nat.le_succ _)
    rwa [List.append_nil] at hboth
  ifThen condition body p hcondition hbody s inside hlaid := by
    obtain ⟨hlaid, -, hlaid'⟩ := hlaid
    exact (hcondition s inside hlaid).append (hbody _ inside hlaid') hlaid.lie hlaid'.lie
      (Nat.le_add_right _ _) hlaid.le hlaid'.le
  ifElse condition body other p hcondition hbody hother s inside hlaid := by
    obtain ⟨hlaid, -, hlaid', -, hlaid''⟩ := hlaid
    rw [Stmt.behind]
    have hle' := hlaid'.le
    have hle'' := hlaid''.le
    have hbodies := (hbody _ inside hlaid').append (hother _ inside hlaid'') hlaid'.lie
      hlaid''.lie (Nat.le_succ _) hle' hle''
    rw [Scope.address_skip] at hle' hle''
    exact (hcondition s inside hlaid).append hbodies hlaid.lie
      ((hlaid'.lie.mono (Nat.le_refl _) (by omega)).append
        (hlaid''.lie.mono (by simp only [Scope.address_skip]; omega) (Nat.le_refl _)))
      (Nat.le_add_right _ _) hlaid.le (by simp only [Scope.address_skip]; omega)
  whileDo condition body p hcondition hbody s inside hlaid := by
    obtain ⟨hlaid, -, hlaid', -⟩ := hlaid
    have hboth := (hcondition s inside hlaid).append (hbody _ inside hlaid') hlaid.lie
      hlaid'.lie (Nat.le_add_right _ _) hlaid.le hlaid'.le
    exact hboth.mono (Nat.le_refl _) (Nat.le_succ _)
  discard callee arguments q p hc h s inside hlaid := by
    obtain ⟨hlaid, hcallee, -⟩ := hlaid
    exact (callReturns_lie hc h hlaid hcallee).mono (Nat.le_refl _) (Nat.le_succ _)
  value value p hcall h s inside hlaid := by
    rw [Stmt.Laid] at hlaid
    · rw [Stmt.behind, Stmt.bodies, Stmt.returns, Scope.address_skip]
      · exact (h s inside hlaid.1).mono (Nat.le_refl _) (Nat.le_succ _)
      all_goals exact hcall
    · exact hcall
  assign text q value p h s inside hlaid :=
    (h s inside hlaid.1).mono (Nat.le_refl _) (Nat.le_succ _)
  assignOther target value p hname _ _ s inside hlaid := by
    rw [Stmt.Laid] at hlaid
    · exact hlaid.elim
    · exact hname

end Lying

/-- A `return` of a script has its instruction in a body exactly if it is written inside a
function. -/
theorem Script.returns_lie {file text : String} {script : Script}
    (hread : (Script.read file text).result = some script)
    (hclean : script.compile.faults = #[]) : ∀ r ∈ script.returns,
      (∃ operand, script.compile.code.instructions[r.address]? = some ⟨.ret, operand⟩) ∧
        (r.inside = true ↔ ∃ b ∈ script.bodies, b.Holds r.address) := by
  intro r hr
  obtain ⟨hlaid, -⟩ := script.compile_laid (Script.read_addressFree hread) hclean
  obtain ⟨hret, -, -, hinside⟩ :=
    (StackScript.returns_lie script.compile.code).stmt script.root {} false hlaid r hr
  exact ⟨hret, hinside.trans (by simp [Script.bodies])⟩

end StackScript
