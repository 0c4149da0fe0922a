import StackScript.Proofs.Machine.Calls
import StackScript.Proofs.Tree.Induction

/-!
The machine does what carrying out the script says. Over a part of a tree this is an
induction over the tree, given that whatever is carried out at another place is
matched. What is carried out at another place comes with one more step of the
machine, so that the depth to which a script is carried out bounds the steps from
below, and what has no end on the tree has none on the machine.
-/

namespace StackScript

variable {σ : Type}

open Machine (Matches HasPushed HasLeft HasCalled callOpcode)

section Trees

variable {s : Setting σ} {start : σ} {bound : Nat} {again : Again σ} {m : Machine σ} {w : World σ}
  {stack : Array Value} {frames : Array Frame}

/-- Wherever the code for the expression stands, the machine does what the expression
says. -/
def Expr.Follows (s : Setting σ) (start : σ) (bound : Nat) (again : Again σ) (e : Expr) : Prop :=
  ∀ (place : Scope) (m : Machine σ) (w : World σ) (stack : Array Value) (frames : Array Frame),
    e.Laid s.code place → m.Stands s start w place.address stack frames →
      Matches s bound m w (HasPushed s start (e.behind place).address stack frames)
        (e.exec s.hosts again place w)

section Operators

variable {p : Position}

theorem Expr.Follows.unary {operand : Expr} (h : operand.Follows s start bound again)
    (op : UnaryOp) : (Expr.unary op operand p).Follows s start bound again := by
  intro place m w stack frames ⟨hlaid, hholds⟩ hm
  rw [Expr.exec]
  refine .bind (h place m w stack frames hlaid hm) fun v w₁ m₁ _ ⟨h₁, _⟩ => ?_
  exact .unary (operand.position, v) h₁ hholds

theorem Expr.Follows.binary {left right : Expr} (hleft : left.Follows s start bound again)
    (hright : right.Follows s start bound again) (op : BinaryOp) :
    (Expr.binary op left right p).Follows s start bound again := by
  intro place m w stack frames ⟨hlaid, hlaid', hholds⟩ hm
  rw [Expr.exec]
  refine .bind (hleft place m w stack frames hlaid hm) fun a w₁ m₁ _ ⟨h₁, _⟩ => ?_
  refine .bind (hright _ m₁ w₁ _ frames hlaid' h₁) fun b w₂ m₂ _ ⟨h₂, _⟩ => ?_
  exact .binary (left.position, a) (right.position, b) h₂ hholds

theorem Expr.Follows.logical {left right : Expr} (hleft : left.Follows s start bound again)
    (hright : right.Follows s start bound again) (op : LogicalOp) :
    (Expr.logical op left right p).Follows s start bound again := by
  intro place m w stack frames ⟨hlaid, htest, hlaid', hnot, hlast⟩ hm
  rw [Expr.exec]
  refine .bind (hleft place m w stack frames hlaid hm) fun a w₁ m₁ _ ⟨h₁, _⟩ => ?_
  refine .test h₁ htest (fun hsettled m₂ h₂ => ?_) fun hopen m₂ h₂ => ?_
  · rw [if_pos hsettled]
    exact .truth h₂ hnot hlast
  · rw [if_neg (by simp only [hopen, Bool.false_eq_true, not_false_eq_true])]
    refine .bind (hright _ m₂ w₁ stack frames hlaid' h₂) fun b w₃ m₃ _ ⟨h₃, _⟩ => ?_
    exact .truth h₃ hnot hlast

theorem Expr.Follows.declare {value : Expr} (h : value.Follows s start bound again)
    (name : String) :
    (Stmt.declare name value p).Follows s start bound fun place =>
      (Stmt.declare name value p).exec s.hosts again place := by
  intro place m w stack frames ⟨hlaid, hholds⟩ hm
  rw [← Scope.address_declare place name] at hm
  simp only [Stmt.exec]
  refine .bind (h _ m w stack frames hlaid hm) fun v w₁ m₁ _ ⟨h₁, hv⟩ => ?_
  refine .bind (.define h₁ hv hholds) fun _ w₂ m₂ _ h₂ => ?_
  exact .done h₂

end Operators

theorem execArguments_matches {es : List Expr}
    (h : ∀ e ∈ es, e.Follows s start bound again) (place : Scope)
    (hlaid : ArgumentsLaid s.code place es)
    (hm : m.Stands s start w place.address stack frames) :
    Matches s bound m w (fun vs w' m' =>
      m'.Stands s start w' (argumentsBehind place es).address (stack ++ vs.toArray) frames ∧
        vs.length = es.length ∧ ∀ v ∈ vs, w'.Knows v) (execArguments s.hosts again place es w) := by
  induction es generalizing place m w stack with
  | nil =>
    rw [argumentsBehind]
    exact .done ⟨by simpa only [Array.append_empty] using hm, rfl, by simp⟩
  | cons e es ih =>
    obtain ⟨he, hes⟩ := List.forall_mem_cons.1 h
    rw [execArguments]
    refine .bind (he place m w stack frames hlaid.1 hm) fun v w₁ m₁ _ ⟨h₁, hv⟩ => ?_
    refine .bind (ih hes _ hlaid.2 h₁) fun vs w₂ m₂ hgrows ⟨h₂, hlength, hvs⟩ => .done ⟨?_, ?_, ?_⟩
    · rwa [List.push_append_toArray] at h₂
    · rw [List.length_cons, List.length_cons, hlength]
    · exact List.forall_mem_cons.2 ⟨hgrows v hv, hvs⟩

theorem Direct.callee_of_none {place : Scope} {callee : Expr} (h : place.callee? callee = none)
    (value : Direct σ Value) : Direct.callee place callee value = value := by
  cases callee with
  | name text p => cases h
  | member parent child p =>
    have hpath : (Expr.member parent child p).dotted? = none := Option.map_eq_none_iff.1 h
    unfold Direct.callee
    simp only [hpath]
  | _ => rfl

theorem Direct.callee_of_some {place : Scope} {callee : Expr} {opcode : Opcode} {text : String}
    (h : place.callee? callee = some (opcode, text)) (value : Direct σ Value) :
    Direct.callee place callee value =
      if opcode = .pushGlobal then Direct.variableValue text callee.position
      else return .string text := by
  cases callee with
  | name text p =>
    cases h
    unfold Direct.callee
    dsimp only
    cases place.declared.contains text <;> rfl
  | member parent child p =>
    obtain ⟨path, hpath, heq⟩ := Option.map_eq_some_iff.1 h
    cases heq
    unfold Direct.callee
    simp only [hpath]
    rfl
  | _ => cases h

theorem callee_matches {callee : Expr}
    (h : callee.Follows s start bound again) (place : Scope)
    (hlaid : s.code.HoldsCallee place callee (callee.Laid s.code place))
    (hm : m.Stands s start w place.address stack frames) :
    Matches s bound m w
      (HasPushed s start (place.behindCallee callee fun s => callee.behind s).address stack frames)
      (Direct.callee place callee (callee.exec s.hosts again place) w) := by
  unfold Code.HoldsCallee at hlaid
  unfold Scope.behindCallee
  cases hcallee : place.callee? callee with
  | none =>
    rw [hcallee] at hlaid
    rw [Direct.callee_of_none hcallee]
    exact h place m w stack frames hlaid hm
  | some named =>
    obtain ⟨opcode, text⟩ := named
    rw [hcallee] at hlaid
    rw [Direct.callee_of_some hcallee]
    rcases Scope.callee?_opcode hcallee with rfl | rfl
    · exact .text hm hlaid
    · exact .variableValue hm hlaid

/-- The arguments, the callee and the call itself. -/
theorem call_matches (wantsValue : Bool) {callee : Expr} {arguments : List Expr}
    (hhosts : s.hosts.Decent start)
    (hagain : ∀ t : Stmt, t.Follows s start bound (again · t))
    (hc : callee.Follows s start (bound + 1) again)
    (h : ∀ e ∈ arguments, e.Follows s start (bound + 1) again) (place : Scope)
    {p : Position} (hlaid : ArgumentsLaid s.code place arguments)
    (hcallee : s.code.HoldsCallee (argumentsBehind place arguments) callee
      (callee.Laid s.code (argumentsBehind place arguments)))
    (hholds : s.code.Holds
      ((argumentsBehind place arguments).behindCallee callee fun s => callee.behind s).address
      (callOpcode wantsValue) arguments.length p)
    (hm : m.Stands s start w place.address stack frames) :
    Matches s (bound + 1) m w (HasCalled s start wantsValue
      (((argumentsBehind place arguments).behindCallee callee fun s => callee.behind s).address + 1)
      stack frames) ((Expr.call callee arguments p).exec s.hosts again place w) := by
  rw [Expr.exec]
  refine .bind (execArguments_matches h place hlaid hm) fun vs w₁ m₁ _ ⟨h₁, hlength, hvs⟩ => ?_
  refine .bind (callee_matches hc _ hcallee h₁) fun f w₂ m₂ hgrows ⟨h₂, hf⟩ => ?_
  exact .call hhosts hagain h₂ (hlength ▸ hholds) (fun v hv => hgrows v (hvs v hv)) hf

theorem execStatements_matches {ts : List Stmt}
    (h : ∀ t ∈ ts, t.Follows s start bound (t.exec s.hosts again)) (place : Scope)
    (hlaid : StatementsLaid s.code place ts)
    (hm : m.Stands s start w place.address stack frames) :
    Matches s bound m w (HasLeft s start (statementsBehind place ts).address stack frames)
      (execStatements s.hosts again place ts w) := by
  induction ts generalizing place m w with
  | nil => exact .done hm
  | cons t ts ih =>
    obtain ⟨ht, hts⟩ := List.forall_mem_cons.1 h
    rw [execStatements]
    refine .bind (ht place m w stack frames hlaid.1 hm) fun flow w₁ m₁ _ h₁ => ?_
    cases flow with
    | next => exact ih hts _ hlaid.2 h₁
    | returned value => exact .done h₁

theorem tree_follows (hhosts : s.hosts.Decent start)
    (hagain : ∀ t : Stmt, t.Follows s start bound (again · t)) :
    Tree.Cases (fun e => e.Follows s start (bound + 1) again)
      (fun t => t.Follows s start (bound + 1) (t.exec s.hosts again)) where
  literal value p place m w stack frames hlaid hm := .literal hm hlaid
  name text p place m w stack frames hlaid hm := .variableValue hm hlaid
  group inner p h place m w stack frames hlaid hm := h place m w stack frames hlaid hm
  unary op operand p h := h.unary op
  binary op left right p hleft hright := hleft.binary hright op
  logical op left right p hleft hright := hleft.logical hright op
  function body p h place m w stack frames hlaid hm := by
    obtain ⟨hgoto, hlaid, hret, hpush⟩ := hlaid
    refine (Matches.goto hm hgoto fun m₁ h₁ => ?_).weaken (Nat.le_succ (bound + 1))
    exact .closure (f := ⟨body, place.skip 1⟩) h₁ hpush hlaid hret
  call callee arguments p hc h place m w stack frames hlaid hm := by
    obtain ⟨hlaid, hcallee, hholds⟩ := hlaid
    exact call_matches true hhosts hagain hc h place hlaid hcallee hholds hm
  index callee arguments p _ _ place m w stack frames hlaid hm := hlaid.elim
  member parent child p _ _ place m w stack frames hlaid hm := by
    unfold Expr.Laid at hlaid
    unfold Expr.exec
    cases hpath : (Expr.member parent child p).dotted? with
    | some path =>
      rw [hpath] at hlaid
      exact .variableValue hm hlaid
    | none =>
      rw [hpath] at hlaid
      exact hlaid.elim
  empty p place m w stack frames hlaid hm := .done hm
  declare name value p h := h.declare name
  block body p h place m w stack frames hlaid hm := execStatements_matches h place hlaid hm
  returnNull p place m w stack frames hlaid hm := .done ⟨place.address, p, hlaid, hm, by simp⟩
  returnValue value p h place m w stack frames hlaid hm := by
    obtain ⟨hlaid, hret⟩ := hlaid
    simp only [Stmt.exec]
    refine .bind (h place m w stack frames hlaid hm) fun v w₁ m₁ _ ⟨h₁, hv⟩ => ?_
    exact .done ⟨_, p, hret, h₁, by simpa using hv⟩
  ifThen condition body p hcondition hbody place m w stack frames hlaid hm := by
    obtain ⟨hlaid, hbranch, hlaid'⟩ := hlaid
    simp only [Stmt.exec]
    refine .bind (hcondition place m w stack frames hlaid hm) fun v w₁ m₁ _ ⟨h₁, _⟩ => ?_
    refine .branch h₁ hbranch (fun htrue m₂ h₂ => ?_) fun hfalse m₂ h₂ => ?_
    · rw [if_pos htrue]
      exact hbody _ m₂ w₁ stack frames hlaid' h₂
    · rw [if_neg (by simp only [hfalse, Bool.false_eq_true, not_false_eq_true])]
      exact .done h₂
  ifElse condition body other p hcondition hbody hother place m w stack frames hlaid hm := by
    obtain ⟨hlaid, hbranch, hlaid', hgoto, hlaid''⟩ := hlaid
    simp only [Stmt.exec]
    refine .bind (hcondition place m w stack frames hlaid hm) fun v w₁ m₁ _ ⟨h₁, _⟩ => ?_
    refine .branch h₁ hbranch (fun htrue m₂ h₂ => ?_) fun hfalse m₂ h₂ => ?_
    · rw [if_pos htrue]
      refine .onward (hbody _ m₂ w₁ stack frames hlaid' h₂) fun flow w₃ m₃ h₃ => ?_
      cases flow with
      | next =>
        exact (Matches.goto h₃ hgoto fun m₄ h₄ => .done h₄).weaken (Nat.le_succ (bound + 1))
      | returned value => exact .done h₃
    · rw [if_neg (by simp only [hfalse, Bool.false_eq_true, not_false_eq_true])]
      exact hother _ m₂ w₁ stack frames hlaid'' h₂
  whileDo condition body p hcondition hbody place m w stack frames hlaid hm := by
    have hloop := hlaid
    obtain ⟨hlaid, hbranch, hlaid', hgoto⟩ := hlaid
    simp only [Stmt.exec]
    refine .bind (hcondition place m w stack frames hlaid hm) fun v w₁ m₁ _ ⟨h₁, _⟩ => ?_
    refine .branch h₁ hbranch (fun htrue m₂ h₂ => ?_) fun hfalse m₂ h₂ => ?_
    · rw [if_pos htrue]
      refine .bind (hbody _ m₂ w₁ stack frames hlaid' h₂) fun flow w₃ m₃ _ h₃ => ?_
      cases flow with
      -- The jump back is the step that pays for another round.
      | next => exact .goto h₃ hgoto fun m₄ h₄ => hagain _ place m₄ w₃ stack frames hloop h₄
      | returned value => exact .done h₃
    · rw [if_neg (by simp only [hfalse, Bool.false_eq_true, not_false_eq_true])]
      exact .done h₂
  discard callee arguments q p hc h place m w stack frames hlaid hm := by
    obtain ⟨hlaid, hcallee, hholds⟩ := hlaid
    simp only [Stmt.exec]
    refine .bind (call_matches false hhosts hagain hc h place hlaid hcallee hholds
      hm) fun v w₁ m₁ _ ⟨h₁, _⟩ => ?_
    exact .done h₁
  value value p hcall h place m w stack frames hlaid hm := by
    rw [Stmt.Laid] at hlaid
    · obtain ⟨hlaid, hpop⟩ := hlaid
      rw [Stmt.behind]
      · simp only [Stmt.exec]
        refine .bind (h place m w stack frames hlaid hm) fun v w₁ m₁ _ ⟨h₁, _⟩ => ?_
        exact .pop h₁ hpop fun m₂ h₂ => .done h₂
      · exact hcall
    · exact hcall
  assign text q value p h place m w stack frames hlaid hm := by
    obtain ⟨hlaid, hholds⟩ := hlaid
    simp only [Stmt.exec]
    refine .bind (h place m w stack frames hlaid hm) fun v w₁ m₁ _ ⟨h₁, hv⟩ => ?_
    refine .bind (.assign h₁ hv hholds) fun _ w₂ m₂ _ h₂ => ?_
    exact .done h₂
  assignOther target value p hname _ _ place m w stack frames hlaid hm := by
    rw [Stmt.Laid] at hlaid
    · exact hlaid.elim
    · exact hname

end Trees

/-- The deeper a script is carried out before it is given up, the more steps the machine
takes. -/
theorem execWithin_follows {s : Setting σ} {start : σ} (hhosts : s.hosts.Decent start)
    (patience : Nat) (t : Stmt) : t.Follows s start patience (execWithin s.hosts patience · t) := by
  induction patience generalizing t with
  | zero =>
    intro place m w stack frames _ _
    exact ⟨0, m, Nat.le_refl 0, rfl, by simp [Machine.calls]⟩
  | succ patience ih => exact (tree_follows hhosts ih).stmt t

end StackScript
