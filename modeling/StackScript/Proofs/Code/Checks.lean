import StackScript.Code.Check
import StackScript.Proofs.Code.Placement

/-!
Code of a script passes its check. Over a part of the code the check comes to this:
every operand refers to something that exists, and the scan of the stack goes from
one height to another. Parts that stand behind one another are checked one by one.
-/

namespace StackScript

/-- The operand refers to something that exists, where jumps go no further than
`bound`. -/
def Command.Fits (code : Code) (bound : Nat) (c : Command) : Prop :=
  match c.opcode with
  | .pushInt => c.operand.val < code.ints.size
  | .pushNumber => c.operand.val < code.numbers.size
  | .pushString | .pushGlobal | .defineGlobal | .setGlobal => c.operand.val < code.strings.size
  | .goto | .ifTrueGoto => c.operand.val ≤ bound
  | .pushFunction => c.operand.val < bound
  | .pushBool | .ret => c.operand.val ≤ 1
  | _ => True

namespace Code

variable {code : Code}

theorem checkOperand_ok {pc : Nat} {c : Command} (h : c.Fits code code.size) :
    code.checkOperand pc c = .ok () := by
  unfold Command.Fits at h
  unfold checkOperand checkSlot
  split at h <;> simp_all

theorem checkOperands_ok {cs : List Command} (pc : Nat) (h : ∀ c ∈ cs, c.Fits code code.size) :
    code.checkOperands pc cs = .ok () := by
  induction cs generalizing pc with
  | nil => rfl
  | cons c cs ih =>
    obtain ⟨hc, hcs⟩ := List.forall_mem_cons.1 h
    rw [checkOperands, checkOperand_ok hc]
    exact ih (pc + 1) hcs

/-- The instructions from `first` to `last` pass the check, with jumps up to `bound`, and
take the scan of the stack from one height to the other. -/
def Passes (code : Code) (bound first height last height' : Nat) : Prop :=
  ∃ cs : List Command, last = first + cs.length ∧
    (∀ i, i < cs.length → code.instructions[first + i]? = cs[i]?) ∧
    (∀ c ∈ cs, c.Fits code bound) ∧ scanStack first height cs = .ok height'

theorem scanStack_append (pc height : Nat) (cs ds : List Command) :
    scanStack pc height (cs ++ ds) =
      (scanStack pc height cs).bind fun height' => scanStack (pc + cs.length) height' ds := by
  induction cs generalizing pc height with
  | nil => rfl
  | cons c cs ih =>
    rw [List.cons_append, scanStack, scanStack]
    dsimp only
    split
    · rfl
    · rw [ih, List.length_cons, Nat.add_assoc, Nat.add_comm 1]

namespace Passes

variable {bound bound' first middle last height height' height'' : Nat}

theorem refl : code.Passes bound first height first height :=
  ⟨[], rfl, by simp, by simp, rfl⟩

theorem first_le (h : code.Passes bound first height last height') : first ≤ last := by
  obtain ⟨cs, rfl, -⟩ := h
  exact Nat.le_add_right first cs.length

theorem trans (h : code.Passes bound first height middle height')
    (h' : code.Passes bound middle height' last height'') :
    code.Passes bound first height last height'' := by
  obtain ⟨cs, rfl, hat, hfits, hscan⟩ := h
  obtain ⟨ds, rfl, hat', hfits', hscan'⟩ := h'
  refine ⟨cs ++ ds, by simp [Nat.add_assoc], ?_, ?_, ?_⟩
  · intro i hi
    by_cases hlt : i < cs.length
    · rw [List.getElem?_append_left hlt]
      exact hat i hlt
    · rw [List.length_append] at hi
      rw [List.getElem?_append_right (Nat.le_of_not_lt hlt), ← hat' _ (by omega)]
      congr 1
      omega
  · intro c hc
    rcases List.mem_append.1 hc with hmem | hmem
    · exact hfits c hmem
    · exact hfits' c hmem
  · rw [scanStack_append, hscan]
    exact hscan'

/-- One instruction that takes `pops` values and leaves `pushes`. -/
theorem one {opcode : Opcode} {n pops pushes : Nat} {p : Position} {ps : List Position}
    (h : code.Holds first opcode n p ps)
    (hfits : ∀ operand : Operand, operand.val = n → (Command.mk opcode operand).Fits code bound)
    (heffect : opcode.stackEffect n = (pops, pushes)) :
    code.Passes bound first (height + pops) (first + 1) (height + pushes) := by
  obtain ⟨operand, hcommand, rfl, -⟩ := h
  refine ⟨[⟨opcode, operand⟩], rfl, ?_, ?_, ?_⟩
  · intro i hi
    obtain rfl : i = 0 := by simpa using hi
    exact hcommand
  · intro c hc
    obtain rfl := List.mem_singleton.1 hc
    exact hfits operand rfl
  · have heffect' : (Command.mk opcode operand).stackEffect = (pops, pushes) := heffect
    simp only [scanStack, heffect']
    rw [if_neg (by omega), Nat.add_sub_cancel]

theorem text {opcode : Opcode} {text : String} {p : Position} {pops pushes : Nat}
    (h : code.HoldsText first opcode text p)
    (hopcode : opcode = .pushString ∨ opcode = .pushGlobal ∨ opcode = .defineGlobal ∨
      opcode = .setGlobal)
    (heffect : ∀ n, opcode.stackEffect n = (pops, pushes)) :
    code.Passes bound first (height + pops) (first + 1) (height + pushes) := by
  obtain ⟨slot, hholds, hslot⟩ := h
  have hlt := (Array.getElem?_eq_some_iff.1 hslot).1
  refine one hholds (fun operand hoperand => ?_) (heffect slot)
  subst hoperand
  rcases hopcode with rfl | rfl | rfl | rfl <;> exact hlt

/-- An instruction that puts a value on the stack. -/
theorem push {opcode : Opcode} {n : Nat} {p : Position}
    (h : code.Holds first opcode n p)
    (hfits : ∀ operand : Operand, operand.val = n → (Command.mk opcode operand).Fits code bound)
    (heffect : opcode.stackEffect n = (0, 1)) :
    code.Passes bound first height (first + 1) (height + 1) :=
  one h hfits heffect

/-- An instruction that puts one value in place of another. -/
theorem change {opcode : Opcode} {n : Nat} {p : Position} {ps : List Position}
    (h : code.Holds first opcode n p ps)
    (hfits : ∀ operand : Operand, operand.val = n → (Command.mk opcode operand).Fits code bound)
    (heffect : opcode.stackEffect n = (1, 1)) :
    code.Passes bound first (height + 1) (first + 1) (height + 1) :=
  one h hfits heffect

/-- An instruction that takes a value from the stack. -/
theorem drop {opcode : Opcode} {n : Nat} {p : Position} {ps : List Position}
    (h : code.Holds first opcode n p ps)
    (hfits : ∀ operand : Operand, operand.val = n → (Command.mk opcode operand).Fits code bound)
    (heffect : opcode.stackEffect n = (1, 0)) :
    code.Passes bound first (height + 1) (first + 1) height :=
  one h hfits heffect

/-- An instruction that leaves the stack as it is. -/
theorem keep {opcode : Opcode} {n : Nat} {p : Position} {ps : List Position}
    (h : code.Holds first opcode n p ps)
    (hfits : ∀ operand : Operand, operand.val = n → (Command.mk opcode operand).Fits code bound)
    (heffect : opcode.stackEffect n = (0, 0)) :
    code.Passes bound first height (first + 1) height :=
  one h hfits heffect

theorem literal {value : Value} {p : Position} (h : code.HoldsLiteral first p value) :
    code.Passes bound first height (first + 1) (height + 1) := by
  cases value with
  | null => exact push h (fun _ _ => trivial) rfl
  | bool b =>
    refine push h (fun operand hoperand => ?_) rfl
    change operand.val ≤ 1
    rw [hoperand]
    exact b.toNat_le
  | int n =>
    obtain ⟨slot, hholds, hslot⟩ := h
    refine push hholds (fun operand hoperand => ?_) rfl
    subst hoperand
    exact (Array.getElem?_eq_some_iff.1 hslot).1
  | number x =>
    obtain ⟨slot, hholds, hslot⟩ := h
    refine push hholds (fun operand hoperand => ?_) rfl
    subst hoperand
    exact (Array.getElem?_eq_some_iff.1 hslot).1
  | string text => exact .text h (.inl rfl) fun _ => rfl
  | function entry => exact h.elim

theorem test {target : Nat} {p : Position} (h : code.Holds first .ifTrueGoto target p)
    (hle : target ≤ bound) : code.Passes bound first (height + 1) (first + 1) height := by
  refine drop h (fun operand hoperand => ?_) rfl
  change operand.val ≤ bound
  rwa [hoperand]

theorem goto {target : Nat} {p : Position} (h : code.Holds first .goto target p)
    (hle : target ≤ bound) : code.Passes bound first height (first + 1) height := by
  refine keep h (fun operand hoperand => ?_) rfl
  change operand.val ≤ bound
  rwa [hoperand]

theorem branch {target : Nat} {p : Position} (h : code.HoldsBranch first target p)
    (hle : target ≤ bound) : code.Passes bound first (height + 1) (first + 2) height := by
  have hnot : code.Passes bound first (height + 1) (first + 1) (height + 1) :=
    change h.1 (fun _ _ => trivial) rfl
  exact hnot.trans (test h.2 hle)

theorem leave {n : Nat} {p : Position} (h : code.Holds first .ret n p) (hn : n ≤ 1) :
    code.Passes bound first (height + n) (first + 1) height := by
  have hfits (operand : Operand) (hoperand : operand.val = n) :
      (Command.mk .ret operand).Fits code bound := by
    change operand.val ≤ 1
    omega
  have hret : code.Passes bound first (height + n) (first + 1) (height + 0) := one h hfits rfl
  exact hret

theorem logicalTest {op : LogicalOp} {target : Nat} {p : Position}
    (h : code.HoldsTest first target p op) (hle : target ≤ bound) :
    code.Passes bound first (height + 1) (first + op.gap) height := by
  have hdup {a : Nat} (hholds : code.Holds a .dup 0 p) :
      code.Passes bound a (height + 1) (a + 1) (height + 2) :=
    one hholds (fun _ _ => trivial) rfl
  have hpop {a : Nat} (hholds : code.Holds a .pop 1 p) :
      code.Passes bound a (height + 1) (a + 1) height :=
    drop hholds (fun _ _ => trivial) rfl
  cases op with
  | and =>
    obtain ⟨hdups, hnot, htest, hpops⟩ := h
    have hnot : code.Passes bound (first + 1) (height + 2) (first + 2) (height + 2) :=
      change hnot (fun _ _ => trivial) rfl
    exact (((hdup hdups).trans hnot).trans (test htest hle)).trans (hpop hpops)
  | or =>
    obtain ⟨hdups, htest, hpops⟩ := h
    exact ((hdup hdups).trans (test htest hle)).trans (hpop hpops)

end Passes

end Code

section

variable {code : Code}

def Expr.Checks (code : Code) (e : Expr) : Prop :=
  ∀ s bound height, e.Laid code s → (e.behind s).address ≤ bound →
    code.Passes bound s.address height (e.behind s).address (height + 1)

def Stmt.Checks (code : Code) (t : Stmt) : Prop :=
  ∀ s bound height, t.Laid code s → (t.behind s).address ≤ bound →
    code.Passes bound s.address height (t.behind s).address height

theorem arguments_check {es : List Expr} (h : ∀ e ∈ es, e.Checks code) {s : Scope}
    {bound height : Nat} (hlaid : ArgumentsLaid code s es)
    (hle : (argumentsBehind s es).address ≤ bound) :
    code.Passes bound s.address height (argumentsBehind s es).address (height + es.length) := by
  induction es generalizing s height with
  | nil => exact .refl
  | cons e es ih =>
    obtain ⟨he, hes⟩ := List.forall_mem_cons.1 h
    have hrest : code.Passes bound (e.behind s).address (height + 1)
        (argumentsBehind s (e :: es)).address (height + 1 + es.length) := ih hes hlaid.2 hle
    have hfirst := he s bound height hlaid.1 (Nat.le_trans hrest.first_le hle)
    rw [List.length_cons, Nat.add_comm es.length, ← Nat.add_assoc]
    exact hfirst.trans hrest

theorem statements_check {ts : List Stmt} (h : ∀ t ∈ ts, t.Checks code) {s : Scope}
    {bound height : Nat} (hlaid : StatementsLaid code s ts)
    (hle : (statementsBehind s ts).address ≤ bound) :
    code.Passes bound s.address height (statementsBehind s ts).address height := by
  induction ts generalizing s with
  | nil => exact .refl
  | cons t ts ih =>
    obtain ⟨ht, hts⟩ := List.forall_mem_cons.1 h
    have hrest := ih hts hlaid.2 hle
    exact (ht s bound height hlaid.1 (Nat.le_trans hrest.first_le hle)).trans hrest

/-- The arguments of a call and its callee. -/
theorem call_checks {callee : Expr} {arguments : List Expr} (hc : callee.Checks code)
    (h : ∀ e ∈ arguments, e.Checks code) {s : Scope} {bound height : Nat}
    (hlaid : ArgumentsLaid code s arguments)
    (hcallee : code.HoldsCallee (argumentsBehind s arguments) callee
      (callee.Laid code (argumentsBehind s arguments)))
    (hle : ((argumentsBehind s arguments).behindCallee callee fun s => callee.behind s).address ≤
      bound) :
    code.Passes bound s.address height
      ((argumentsBehind s arguments).behindCallee callee fun s => callee.behind s).address
      (height + arguments.length + 1) := by
  have hcall : code.Passes bound (argumentsBehind s arguments).address
      (height + arguments.length)
      ((argumentsBehind s arguments).behindCallee callee fun s => callee.behind s).address
      (height + arguments.length + 1) := by
    unfold Scope.behindCallee Code.HoldsCallee at *
    cases hnamed : (argumentsBehind s arguments).callee? callee with
    | some named =>
      obtain ⟨opcode, text⟩ := named
      simp only [hnamed] at hcallee hle ⊢
      rcases Scope.callee?_opcode hnamed with rfl | rfl
      · exact .text hcallee (.inl rfl) fun _ => rfl
      · exact .text hcallee (.inr (.inl rfl)) fun _ => rfl
    | none =>
      simp only [hnamed] at hcallee hle ⊢
      exact hc _ bound _ hcallee hle
  exact (arguments_check h hlaid (Nat.le_trans hcall.first_le hle)).trans hcall

theorem laid_checks (code : Code) : Tree.Cases (Expr.Checks code) (Stmt.Checks code) where
  literal value p s bound height hlaid _ := .literal hlaid
  name text p s bound height hlaid _ :=
    .text hlaid (.inr (.inl rfl)) fun _ => rfl
  group inner p h s bound height hlaid hle := h s bound height hlaid hle
  unary op operand p h s bound height hlaid hle := by
    obtain ⟨hlaid, hholds⟩ := hlaid
    rw [Expr.behind, Scope.address_skip] at hle ⊢
    have hoperand := h s bound height hlaid (by omega)
    exact hoperand.trans (.change hholds (fun _ _ => by cases op <;> trivial) (by cases op <;> rfl))
  binary op left right p hleft hright s bound height hlaid hle := by
    obtain ⟨hlaid, hlaid', hholds⟩ := hlaid
    rw [Expr.behind, Scope.address_skip] at hle ⊢
    have hright := hright _ bound (height + 1) hlaid' (by omega)
    have hleft := hleft s bound height hlaid (by have := hright.first_le; omega)
    have hop : code.Passes bound (right.behind (left.behind s)).address (height + 2) _
        (height + 1) :=
      .one hholds (fun _ _ => by cases op <;> trivial) (by cases op <;> rfl)
    exact (hleft.trans hright).trans hop
  logical op left right p hleft hright s bound height hlaid hle := by
    obtain ⟨hlaid, htest, hlaid', hnot, hlast⟩ := hlaid
    rw [Expr.behind, Scope.address_skip] at hle ⊢
    have hright := hright _ bound height hlaid' (by omega)
    have htest : code.Passes bound (left.behind s).address (height + 1) _ height :=
      .logicalTest htest (by omega)
    have hleft := hleft s bound height hlaid
      (by have := hright.first_le; have := htest.first_le; simp at *; omega)
    have hnot : code.Passes bound _ (height + 1) _ (height + 1) :=
      .change hnot (fun _ _ => trivial) rfl
    have hlast : code.Passes bound _ (height + 1) _ (height + 1) :=
      .change hlast (fun _ _ => trivial) rfl
    exact (((hleft.trans htest).trans hright).trans hnot).trans hlast
  function body p h s bound height hlaid hle := by
    obtain ⟨hgoto, hlaid, hret, hpush⟩ := hlaid
    rw [Expr.behind, Scope.address_skip] at hle ⊢
    have hbody := h _ bound height hlaid (by omega)
    have hentry := hbody.first_le
    rw [Scope.address_skip] at hentry
    have hgoto : code.Passes bound s.address height _ height := .goto hgoto (by omega)
    have hret : code.Passes bound _ height _ height := .leave hret (by omega)
    have hfits (operand : Operand) (hoperand : operand.val = s.address + 1) :
        (Command.mk .pushFunction operand).Fits code bound := by
      change operand.val < bound
      omega
    exact ((hgoto.trans hbody).trans hret).trans (.push hpush hfits rfl)
  call callee arguments p hc h s bound height hlaid hle := by
    obtain ⟨hlaid, hcallee, hholds⟩ := hlaid
    rw [Expr.behind, Scope.address_skip] at hle ⊢
    have hcall : code.Passes bound _ (height + (arguments.length + 1)) _ (height + 1) :=
      .one hholds (fun _ _ => trivial) rfl
    exact (call_checks hc h hlaid hcallee (by omega)).trans hcall
  index callee arguments p _ _ s bound height hlaid _ := hlaid.elim
  member parent child p _ _ s bound height hlaid _ := by
    unfold Expr.Laid at hlaid
    split at hlaid
    · exact .text hlaid (.inr (.inl rfl)) fun _ => rfl
    · exact hlaid.elim
  empty p s bound height _ _ := .refl
  declare name value p h s bound height hlaid hle := by
    obtain ⟨hlaid, hholds⟩ := hlaid
    rw [Stmt.behind, Scope.address_skip] at hle ⊢
    have hvalue := h _ bound height hlaid (by omega)
    rw [Scope.address_declare] at hvalue
    have hdefine : code.Passes bound _ (height + 1) _ height :=
      .text hholds (.inr (.inr (.inl rfl))) fun _ => rfl
    exact hvalue.trans hdefine
  block body p h s bound height hlaid hle := statements_check h hlaid hle
  returnNull p s bound height hlaid hle := .leave hlaid (by omega)
  returnValue value p h s bound height hlaid hle := by
    obtain ⟨hlaid, hret⟩ := hlaid
    rw [Stmt.behind, Scope.address_skip] at hle ⊢
    exact (h s bound height hlaid (by omega)).trans (.leave hret (by omega))
  ifThen condition body p hcondition hbody s bound height hlaid hle := by
    obtain ⟨hlaid, hbranch, hlaid'⟩ := hlaid
    rw [Stmt.behind] at hle ⊢
    have hbody := hbody _ bound height hlaid' hle
    have hbranch : code.Passes bound _ (height + 1) _ height := .branch hbranch hle
    have hcondition := hcondition s bound height hlaid
      (by have := hbody.first_le; simp at *; omega)
    exact (hcondition.trans hbranch).trans hbody
  ifElse condition body other p hcondition hbody hother s bound height hlaid hle := by
    obtain ⟨hlaid, hbranch, hlaid', hgoto, hlaid''⟩ := hlaid
    rw [Stmt.behind] at hle ⊢
    have hother := hother _ bound height hlaid'' hle
    have hle' := hother.first_le
    rw [Scope.address_skip] at hle'
    have hbody := hbody _ bound height hlaid' (by omega)
    have hgoto : code.Passes bound _ height _ height := .goto hgoto hle
    have hbranch : code.Passes bound _ (height + 1) _ height := .branch hbranch (by omega)
    have hcondition := hcondition s bound height hlaid
      (by have := hbody.first_le; simp at *; omega)
    exact (((hcondition.trans hbranch).trans hbody).trans hgoto).trans hother
  whileDo condition body p hcondition hbody s bound height hlaid hle := by
    obtain ⟨hlaid, hbranch, hlaid', hgoto⟩ := hlaid
    rw [Stmt.behind, Scope.address_skip] at hle ⊢
    have hbody := hbody _ bound height hlaid' (by omega)
    have hentry := hbody.first_le
    rw [Scope.address_skip] at hentry
    have hbranch : code.Passes bound _ (height + 1) _ height := .branch hbranch (by omega)
    have hcondition := hcondition s bound height hlaid (by omega)
    have hgoto : code.Passes bound _ height _ height :=
      .goto hgoto (by have := hcondition.first_le; omega)
    exact ((hcondition.trans hbranch).trans hbody).trans hgoto
  discard callee arguments q p hc h s bound height hlaid hle := by
    obtain ⟨hlaid, hcallee, hholds⟩ := hlaid
    rw [Stmt.behind, Scope.address_skip] at hle ⊢
    have hcall : code.Passes bound _ (height + (arguments.length + 1)) _ height :=
      .one hholds (fun _ _ => trivial) rfl
    exact (call_checks hc h hlaid hcallee (by omega)).trans hcall
  value value p hcall h s bound height hlaid hle := by
    rw [Stmt.Laid] at hlaid
    · obtain ⟨hlaid, hpop⟩ := hlaid
      rw [Stmt.behind, Scope.address_skip] at hle ⊢
      · have hpop : code.Passes bound _ (height + 1) _ height :=
          .drop hpop (fun _ _ => trivial) rfl
        exact (h s bound height hlaid (by omega)).trans hpop
      all_goals exact hcall
    · exact hcall
  assign text q value p h s bound height hlaid hle := by
    obtain ⟨hlaid, hholds⟩ := hlaid
    rw [Stmt.behind, Scope.address_skip] at hle ⊢
    have hset : code.Passes bound _ (height + 1) _ height :=
      .text hholds (.inr (.inr (.inr rfl))) fun _ => rfl
    exact (h s bound height hlaid (by omega)).trans hset
  assignOther target value p hname _ _ s bound height hlaid hle := by
    rw [Stmt.Laid] at hlaid
    · exact hlaid.elim
    · exact hname

end

/-- Code of a script that has nothing wrong with it passes its check. -/
theorem Script.check_compile {script : Script} (hfree : EachAddressFree script.statements)
    (hclean : script.compile.faults = #[]) : script.compile.code.check = .ok () := by
  obtain ⟨hlaid, hsize⟩ := script.compile_laid hfree hclean
  have hpasses := (laid_checks _).stmt script.root {} script.compile.code.size 0 hlaid
    (Nat.le_of_eq hsize.symm)
  rw [← hsize] at hpasses
  obtain ⟨cs, hlength, hat, hfits, hscan⟩ := hpasses
  have hcs : script.compile.code.instructions.toList = cs := by
    refine List.ext_getElem? fun i => ?_
    rw [Array.getElem?_toList]
    by_cases hi : i < cs.length
    · rw [← hat i hi]
      exact congrArg _ (Nat.zero_add i).symm
    · rw [List.getElem?_eq_none (Nat.le_of_not_lt hi), Array.getElem?_eq_none]
      have hsize' : script.compile.code.instructions.size = cs.length :=
        hlength.trans (Nat.zero_add _)
      omega
  have horigins : script.compile.code.origins.size = script.compile.code.size :=
    Array.size_map.trans Array.size_map.symm
  have hstack : Code.scanStack 0 0 cs = .ok 0 := hscan
  unfold Code.check Code.checkStack
  rw [if_neg (not_not_intro horigins), hcs, Code.checkOperands_ok 0 hfits, hstack]
  rfl

end StackScript
