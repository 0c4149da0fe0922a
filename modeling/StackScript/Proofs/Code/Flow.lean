import StackScript.Proofs.Code.Bodies

/-!
Where the instructions of a script lead. An instruction that is not a return goes on in
the bodies that it lies in itself, at the height that the scan has there, whether it
jumps or not. A return stands exactly as high above the start of its body as it has
values to return. Both are proved of each part of a script, with the bodies of the whole
script in view: those of the part lie between its ends, and no other body begins or ends
there.
-/

namespace StackScript

/-- Two addresses lie in the same bodies. -/
def SameBodies (bodies : List Body) (pc pc' : Nat) : Prop :=
  ∀ b ∈ bodies, b.Holds pc ↔ b.Holds pc'

/-- The innermost body that an address lies in, if it lies in any. -/
def IsWithin (bodies : List Body) : Option Body → Nat → Prop
  | none, pc => ∀ b ∈ bodies, ¬b.Holds pc
  | some b, pc => b ∈ bodies ∧ b.Holds pc ∧ ∀ b' ∈ bodies, b'.Holds pc → b'.first ≤ b.first

/-- The height of the scan at the start of a body, or of the whole code. -/
def Code.baseHeight (code : Code) : Option Body → Nat
  | none => 0
  | some b => code.heightAt b.first

/-- Wherever an instruction goes on, it goes on in the same bodies and at the height of
the scan; a return has only the values that it returns. -/
def Command.Keeps (code : Code) (bodies : List Body) (pc : Nat) (c : Command) : Prop :=
  match c.opcode with
  | .goto =>
    SameBodies bodies pc c.operand.val ∧ code.heightAt c.operand.val = code.heightAt pc
  | .ifTrueGoto =>
    SameBodies bodies pc (pc + 1) ∧ SameBodies bodies pc c.operand.val ∧
      code.heightAt c.operand.val = code.heightAt (pc + 1)
  | .ret => ∀ o, IsWithin bodies o pc → code.heightAt pc = code.baseHeight o + c.operand.val
  | .pushFunction =>
    SameBodies bodies pc (pc + 1) ∧ ∃ b ∈ bodies, b.first = c.operand.val
  | _ => SameBodies bodies pc (pc + 1)

def Code.KeepsAt (code : Code) (bodies : List Body) (pc : Nat) : Prop :=
  ∀ c, code.instructions[pc]? = some c → c.Keeps code bodies pc

section Apart

/-- The body does not begin or end between two addresses. -/
def Body.Level (first last : Nat) (b : Body) : Prop :=
  ∀ pc, first ≤ pc → pc ≤ last → (b.Holds pc ↔ b.Holds first)

/-- Of all bodies only those of a part begin or end between its ends. -/
structure Apart (all own : List Body) (first last : Nat) : Prop where
  mem : ∀ b ∈ own, b ∈ all
  level : ∀ b ∈ all, b ∈ own ∨ b.Level first last

variable {code : Code} {all own own' : List Body} {first last first' last' pc pc' : Nat}

theorem Body.Level.mono {b : Body} (h : b.Level first last) (hfirst : first ≤ first')
    (hlast : last' ≤ last) : b.Level first' last' := by
  intro pc hle hle'
  have hpc := h pc (Nat.le_trans hfirst hle) (Nat.le_trans hle' hlast)
  have hstart := h first' hfirst (by omega)
  exact hpc.trans hstart.symm

theorem Body.Lies.level {b : Body} (h : b.Lies code first last)
    (hapart : last' ≤ first ∨ last ≤ first') : b.Level first' last' := by
  intro pc hle hle'
  have hbounds := h.bounds
  unfold Body.Holds
  omega

namespace Apart

theorem mono (h : Apart all own first last) (hfirst : first ≤ first') (hlast : last' ≤ last) :
    Apart all own first' last' :=
  ⟨h.mem, fun b hb => (h.level b hb).imp id fun hlevel => hlevel.mono hfirst hlast⟩

theorem left (h : Apart all (own ++ own') first last) (hlast : last' ≤ last)
    (hlie : Lie code last' last own') : Apart all own first last' := by
  refine ⟨fun b hb => h.mem b (List.mem_append_left _ hb), fun b hb => ?_⟩
  rcases h.level b hb with hown | hlevel
  · rcases List.mem_append.1 hown with hown | hown
    · exact .inl hown
    · exact .inr ((hlie b hown).level (.inl (Nat.le_refl _)))
  · exact .inr (hlevel.mono (Nat.le_refl _) hlast)

theorem right (h : Apart all (own ++ own') first last) (hfirst : first ≤ first')
    (hlie : Lie code first first' own) : Apart all own' first' last := by
  refine ⟨fun b hb => h.mem b (List.mem_append_right _ hb), fun b hb => ?_⟩
  rcases h.level b hb with hown | hlevel
  · rcases List.mem_append.1 hown with hown | hown
    · exact .inr ((hlie b hown).level (.inr (Nat.le_refl _)))
    · exact .inl hown
  · exact .inr (hlevel.mono hfirst (Nat.le_refl _))

/-- A body goes all through its own code. -/
theorem inner {b : Body} (h : Apart all (b :: own) first last) (hfirst : first ≤ b.first)
    (hlast : b.last ≤ last) : Apart all own b.first b.last := by
  refine ⟨fun b' hb' => h.mem b' (List.mem_cons_of_mem _ hb'), fun b' hb' => ?_⟩
  rcases h.level b' hb' with hown | hlevel
  · rcases List.mem_cons.1 hown with rfl | hown
    · refine .inr fun pc hle hle' => ?_
      unfold Body.Holds
      omega
    · exact .inl hown
  · exact .inr (hlevel.mono hfirst hlast)

/-- All addresses between the ends of a part and in none of its bodies are in the same
bodies. -/
theorem same (h : Apart all own first last) {P : Nat → Prop}
    (hfree : ∀ pc, P pc → first ≤ pc ∧ pc ≤ last ∧ ∀ b ∈ own, ¬b.Holds pc) (pc pc' : Nat)
    (hpc : P pc) (hpc' : P pc') : SameBodies all pc pc' := by
  obtain ⟨hfirst, hlast, hclear⟩ := hfree pc hpc
  obtain ⟨hfirst', hlast', hclear'⟩ := hfree pc' hpc'
  intro b hb
  rcases h.level b hb with hown | hlevel
  · exact iff_of_false (hclear b hown) (hclear' b hown)
  · exact (hlevel pc hfirst hlast).trans (hlevel pc' hfirst' hlast').symm

/-- Behind the bodies of a part nothing changes up to its end. -/
theorem same_behind (h : Apart all own first (last + 1)) (hlie : Lie code first last own)
    (hle : first ≤ last) : SameBodies all last (last + 1) := by
  have hsame := h.same fun x (hx : x = last ∨ x = last + 1) =>
    ⟨by omega, by omega, hlie.clear (by omega)⟩
  exact hsame _ _ (.inl rfl) (.inr rfl)

/-- A part that consists of one instruction. -/
theorem same_one (h : Apart all [] first (first + 1)) : SameBodies all first (first + 1) :=
  have hlie : Lie default first first [] := .nil
  h.same_behind hlie (Nat.le_refl first)

end Apart

end Apart

section Heights

variable {code : Code} {s : Scope}

theorem Expr.Laid.heightAt {e : Expr} (h : e.Laid code s) (hcheck : code.checkStack = .ok ()) :
    code.heightAt (e.behind s).address = code.heightAt s.address + 1 :=
  (h.passes 0).heightAt_add hcheck

theorem Stmt.Laid.heightAt {t : Stmt} (h : t.Laid code s) (hcheck : code.checkStack = .ok ()) :
    code.heightAt (t.behind s).address = code.heightAt s.address :=
  (h.passes 0).heightAt_add hcheck

theorem ArgumentsLaid.heightAt {es : List Expr} (h : ArgumentsLaid code s es)
    (hcheck : code.checkStack = .ok ()) :
    code.heightAt (argumentsBehind s es).address = code.heightAt s.address + es.length := by
  have hheight := (h.passes 0).heightAt_add hcheck
  rwa [Nat.zero_add] at hheight

theorem Code.Holds.heightAt {pc n pops pushes : Nat} {opcode : Opcode} {p : Position}
    {ps : List Position} (h : code.Holds pc opcode n p ps)
    (hcheck : code.checkStack = .ok ()) (heffect : opcode.stackEffect n = (pops, pushes)) :
    code.heightAt (pc + 1) = code.heightAt pc - pops + pushes := by
  obtain ⟨operand, hc, rfl, -⟩ := h
  have hheight := Code.heightAt_succ hcheck hc
  unfold Command.pops Command.pushes Command.stackEffect at hheight
  rwa [heffect] at hheight

theorem Code.HoldsBranch.heightAt {pc n : Nat} {p : Position} (h : code.HoldsBranch pc n p)
    (hcheck : code.checkStack = .ok ()) : code.heightAt (pc + 2) + 1 = code.heightAt pc := by
  have hpasses : code.Passes n pc 1 (pc + 2) 0 := .branch h (Nat.le_refl n)
  exact hpasses.heightAt_add hcheck

theorem Code.HoldsTest.heightAt {pc n : Nat} {p : Position} {op : LogicalOp}
    (h : code.HoldsTest pc n p op) (hcheck : code.checkStack = .ok ()) :
    code.heightAt (pc + op.gap) + 1 = code.heightAt pc := by
  have hpasses : code.Passes n pc 1 (pc + op.gap) 0 := .logicalTest h (Nat.le_refl n)
  exact hpasses.heightAt_add hcheck

end Heights

section Settled

variable {code : Code} {all : List Body} {pc pc' : Nat} {o : Option Body}

theorem SameBodies.symm (h : SameBodies all pc pc') : SameBodies all pc' pc :=
  fun b hb => (h b hb).symm

theorem SameBodies.trans {pc'' : Nat} (h : SameBodies all pc pc')
    (h' : SameBodies all pc' pc'') : SameBodies all pc pc'' :=
  fun b hb => (h b hb).trans (h' b hb)

theorem IsWithin.of_same (h : IsWithin all o pc) (hsame : SameBodies all pc pc') :
    IsWithin all o pc' := by
  cases o with
  | none => exact fun b hb hholds => h b hb ((hsame b hb).2 hholds)
  | some b =>
    obtain ⟨hb, hholds, hinner⟩ := h
    refine ⟨hb, (hsame b hb).1 hholds, fun b' hb' hholds' => ?_⟩
    exact hinner b' hb' ((hsame b' hb').2 hholds')

/-- The scan stands as high as at the start of the innermost body. -/
def Code.Settled (code : Code) (all : List Body) (pc : Nat) : Prop :=
  ∀ o, IsWithin all o pc → code.heightAt pc = code.baseHeight o

theorem Code.Settled.of_same (h : code.Settled all pc) (hsame : SameBodies all pc pc')
    (hheight : code.heightAt pc' = code.heightAt pc) : code.Settled all pc' := by
  intro o ho
  rw [hheight]
  exact h o (ho.of_same hsame.symm)

/-- The first instruction of a body has no body but this as its innermost. -/
theorem Code.Settled.of_first {b : Body} (hb : b ∈ all) (hle : b.first ≤ b.last) :
    code.Settled all b.first := by
  intro o ho
  cases o with
  | none => exact absurd ⟨Nat.le_refl _, hle⟩ (ho b hb)
  | some b' =>
    obtain ⟨-, hholds, hinner⟩ := ho
    have hfirst : b'.first = b.first :=
      Nat.le_antisymm hholds.1 (hinner b hb ⟨Nat.le_refl _, hle⟩)
    rw [Code.baseHeight, hfirst]

end Settled

namespace Code

/-- The instructions from `first` up to `last` keep to the bodies and to the scan. -/
def KeepsFrom (code : Code) (all : List Body) (first last : Nat) : Prop :=
  ∀ pc, first ≤ pc → pc < last → code.KeepsAt all pc

namespace KeepsFrom

variable {code : Code} {all : List Body} {first middle last pc n : Nat} {p : Position}
  {ps : List Position} {opcode : Opcode}

theorem refl : code.KeepsFrom all first first :=
  fun _ hle hlt => absurd hlt (Nat.not_lt.2 hle)

theorem trans (h : code.KeepsFrom all first middle) (h' : code.KeepsFrom all middle last) :
    code.KeepsFrom all first last := by
  intro pc hle hlt
  rcases Nat.lt_or_ge pc middle with hpc | hpc
  · exact h pc hle hpc
  · exact h' pc hpc hlt

theorem one (h : code.Holds pc opcode n p ps)
    (hkeeps : ∀ operand : Operand, operand.val = n →
      (Command.mk opcode operand).Keeps code all pc) : code.KeepsFrom all pc (pc + 1) := by
  intro pc' hle hlt c hc
  obtain rfl : pc' = pc := by omega
  obtain ⟨operand, hcommand, hn, -⟩ := h
  rw [hcommand] at hc
  cases hc
  exact hkeeps operand hn

/-- An instruction that only goes on to the next one. -/
theorem plain (h : code.Holds pc opcode n p ps)
    (hopcode : opcode ≠ .goto ∧ opcode ≠ .ifTrueGoto ∧ opcode ≠ .ret ∧ opcode ≠ .pushFunction)
    (hsame : SameBodies all pc (pc + 1)) : code.KeepsFrom all pc (pc + 1) := by
  refine one h fun operand _ => ?_
  obtain ⟨hgoto, htest, hret, hfunction⟩ := hopcode
  cases opcode with
  | goto => exact absurd rfl hgoto
  | ifTrueGoto => exact absurd rfl htest
  | ret => exact absurd rfl hret
  | pushFunction => exact absurd rfl hfunction
  | _ => exact hsame

theorem text {text : String} (h : code.HoldsText pc opcode text p)
    (hopcode : opcode = .pushString ∨ opcode = .pushGlobal ∨ opcode = .defineGlobal ∨
      opcode = .setGlobal)
    (hsame : SameBodies all pc (pc + 1)) : code.KeepsFrom all pc (pc + 1) := by
  obtain ⟨slot, hholds, -⟩ := h
  refine plain hholds ?_ hsame
  rcases hopcode with rfl | rfl | rfl | rfl <;> decide

theorem literal {value : Value} (h : code.HoldsLiteral pc p value)
    (hsame : SameBodies all pc (pc + 1)) : code.KeepsFrom all pc (pc + 1) := by
  cases value with
  | null | bool b => exact plain h (by decide) hsame
  | int i | number x =>
    obtain ⟨slot, hholds, -⟩ := h
    exact plain hholds (by decide) hsame
  | string text => exact .text h (.inl rfl) hsame
  | function entry => exact h.elim

theorem goto (h : code.Holds pc .goto n p) (hsame : SameBodies all pc n)
    (hheight : code.heightAt n = code.heightAt pc) : code.KeepsFrom all pc (pc + 1) := by
  refine one h fun operand hn => ?_
  subst hn
  exact ⟨hsame, hheight⟩

theorem test (h : code.Holds pc .ifTrueGoto n p) (hsame : SameBodies all pc (pc + 1))
    (hsame' : SameBodies all pc n) (hheight : code.heightAt n = code.heightAt (pc + 1)) :
    code.KeepsFrom all pc (pc + 1) := by
  refine one h fun operand hn => ?_
  subst hn
  exact ⟨hsame, hsame', hheight⟩

theorem ret (h : code.Holds pc .ret n p) (hsettled : code.Settled all first)
    (hsame : SameBodies all first pc) (hheight : code.heightAt pc = code.heightAt first + n) :
    code.KeepsFrom all pc (pc + 1) := by
  refine one h fun operand hn => ?_
  subst hn
  intro o ho
  rw [hheight, hsettled o (ho.of_same hsame.symm)]

theorem function (h : code.Holds pc .pushFunction n p) (hsame : SameBodies all pc (pc + 1))
    (hbody : ∃ b ∈ all, b.first = n) : code.KeepsFrom all pc (pc + 1) := by
  refine one h fun operand hn => ?_
  subst hn
  exact ⟨hsame, hbody⟩

/-- The test of a condition, which leaves for `n`. -/
theorem branch (h : code.HoldsBranch pc n p) (hcheck : code.checkStack = .ok ())
    (hsame : ∀ x y, (pc ≤ x ∧ x ≤ pc + 2 ∨ x = n) → (pc ≤ y ∧ y ≤ pc + 2 ∨ y = n) →
      SameBodies all x y)
    (hheight : code.heightAt n + 1 = code.heightAt pc) : code.KeepsFrom all pc (pc + 2) := by
  obtain ⟨hnot, htest⟩ := h
  have hnotHeight := hnot.heightAt hcheck rfl
  have htestHeight := htest.heightAt hcheck rfl
  have hnot : code.KeepsFrom all pc (pc + 1) :=
    plain hnot (by decide) (hsame _ _ (by omega) (by omega))
  have htest : code.KeepsFrom all (pc + 1) (pc + 1 + 1) :=
    test htest (hsame _ _ (by omega) (by omega)) (hsame _ _ (by omega) (by omega)) (by omega)
  exact hnot.trans htest

/-- The test of a left operand, which leaves for `n` with its value. -/
theorem logicalTest {op : LogicalOp} (h : code.HoldsTest pc n p op)
    (hcheck : code.checkStack = .ok ())
    (hsame : ∀ x y, (pc ≤ x ∧ x ≤ pc + op.gap ∨ x = n) → (pc ≤ y ∧ y ≤ pc + op.gap ∨ y = n) →
      SameBodies all x y)
    (hpos : 0 < code.heightAt pc) (hheight : code.heightAt n = code.heightAt pc) :
    code.KeepsFrom all pc (pc + op.gap) := by
  cases op with
  | and =>
    obtain ⟨hdup, hnot, htest, hpop⟩ := h
    have hdupHeight := hdup.heightAt hcheck rfl
    have hnotHeight : code.heightAt (pc + 2) = code.heightAt (pc + 1) - 1 + 1 :=
      hnot.heightAt hcheck rfl
    have htestHeight := htest.heightAt hcheck rfl
    simp only [LogicalOp.gap] at hsame
    have hdup : code.KeepsFrom all pc (pc + 1) :=
      plain hdup (by decide) (hsame _ _ (by omega) (by omega))
    have hnot : code.KeepsFrom all (pc + 1) (pc + 2) :=
      plain hnot (by decide) (hsame _ _ (by omega) (by omega))
    have htest : code.KeepsFrom all (pc + 2) (pc + 3) :=
      test htest (hsame _ _ (by omega) (by omega)) (hsame _ _ (by omega) (by omega)) (by omega)
    have hpop : code.KeepsFrom all (pc + 3) (pc + 4) :=
      plain hpop (by decide) (hsame _ _ (by omega) (by omega))
    exact ((hdup.trans hnot).trans htest).trans hpop
  | or =>
    obtain ⟨hdup, htest, hpop⟩ := h
    have hdupHeight := hdup.heightAt hcheck rfl
    have htestHeight := htest.heightAt hcheck rfl
    simp only [LogicalOp.gap] at hsame
    have hdup : code.KeepsFrom all pc (pc + 1) :=
      plain hdup (by decide) (hsame _ _ (by omega) (by omega))
    have htest : code.KeepsFrom all (pc + 1) (pc + 2) :=
      test htest (hsame _ _ (by omega) (by omega)) (hsame _ _ (by omega) (by omega)) (by omega)
    have hpop : code.KeepsFrom all (pc + 2) (pc + 3) :=
      plain hpop (by decide) (hsame _ _ (by omega) (by omega))
    exact (hdup.trans htest).trans hpop

end KeepsFrom

end Code

section Tree

variable {code : Code} {all : List Body}

def Expr.KeepsFlow (code : Code) (all : List Body) (e : Expr) : Prop :=
  ∀ s, e.Laid code s → Apart all (e.bodies s) s.address (e.behind s).address →
    code.KeepsFrom all s.address (e.behind s).address

def Stmt.KeepsFlow (code : Code) (all : List Body) (t : Stmt) : Prop :=
  ∀ s, t.Laid code s → Apart all (t.bodies s) s.address (t.behind s).address →
    code.Settled all s.address → code.KeepsFrom all s.address (t.behind s).address

/-- An expression with one instruction behind it. -/
theorem Expr.KeepsFlow.with_one {e : Expr} (h : e.KeepsFlow code all) {s : Scope}
    (hlaid : e.Laid code s) (hapart : Apart all (e.bodies s) s.address ((e.behind s).address + 1))
    (hone : SameBodies all (e.behind s).address ((e.behind s).address + 1) →
      code.KeepsFrom all (e.behind s).address ((e.behind s).address + 1)) :
    code.KeepsFrom all s.address ((e.behind s).address + 1) :=
  (h s hlaid (hapart.mono (Nat.le_refl _) (Nat.le_succ _))).trans
    (hone (hapart.same_behind hlaid.lie hlaid.le))

theorem arguments_keep {es : List Expr} (h : ∀ e ∈ es, e.KeepsFlow code all) {s : Scope}
    (hlaid : ArgumentsLaid code s es)
    (hapart : Apart all (argumentsBodies s es) s.address (argumentsBehind s es).address) :
    code.KeepsFrom all s.address (argumentsBehind s es).address := by
  induction es generalizing s with
  | nil => exact .refl
  | cons e es ih =>
    obtain ⟨he, hes⟩ := List.forall_mem_cons.1 h
    obtain ⟨hlaid, hlaid'⟩ := hlaid
    exact (he s hlaid (hapart.left hlaid'.le hlaid'.lie)).trans
      (ih hes hlaid' (hapart.right hlaid.le hlaid.lie))

theorem statements_keep {ts : List Stmt} (h : ∀ t ∈ ts, t.KeepsFlow code all)
    (hcheck : code.checkStack = .ok ()) {s : Scope} (hlaid : StatementsLaid code s ts)
    (hapart : Apart all (statementsBodies s ts) s.address (statementsBehind s ts).address)
    (hsettled : code.Settled all s.address) :
    code.KeepsFrom all s.address (statementsBehind s ts).address := by
  induction ts generalizing s with
  | nil => exact .refl
  | cons t ts ih =>
    obtain ⟨ht, hts⟩ := List.forall_mem_cons.1 h
    obtain ⟨hlaid, hlaid'⟩ := hlaid
    have hle := hlaid.le
    have hle' := hlaid'.le
    have hsame := hapart.same fun x (hx : x = s.address ∨ x = (t.behind s).address) =>
      ⟨by omega, by rw [statementsBehind]; omega,
        clear_append (hlaid.lie.clear (by omega)) (hlaid'.lie.clear (by omega))⟩
    exact (ht s hlaid (hapart.left hle' hlaid'.lie) hsettled).trans
      (ih hts hlaid' (hapart.right hle hlaid.lie)
        (hsettled.of_same (hsame _ _ (.inl rfl) (.inr rfl)) (hlaid.heightAt hcheck)))

theorem callee_keeps {callee : Expr} (h : callee.KeepsFlow code all) {s : Scope}
    (hlaid : code.HoldsCallee s callee (callee.Laid code s))
    (hapart : Apart all (s.calleeBodies callee fun s => callee.bodies s) s.address
      (s.behindCallee callee fun s => callee.behind s).address) :
    code.KeepsFrom all s.address (s.behindCallee callee fun s => callee.behind s).address := by
  unfold Scope.behindCallee Scope.calleeBodies Code.HoldsCallee at *
  cases hnamed : s.callee? callee with
  | some named =>
    obtain ⟨opcode, text⟩ := named
    simp only [hnamed] at hlaid hapart ⊢
    rw [Scope.address_skip] at hapart ⊢
    refine .text hlaid ((Scope.callee?_opcode hnamed).imp id .inl) ?_
    exact hapart.same_one
  | none =>
    simp only [hnamed] at hlaid hapart ⊢
    exact h s hlaid hapart

/-- A call from its first argument to the instruction that calls. -/
theorem call_keeps {callee : Expr} {arguments : List Expr} (hc : callee.KeepsFlow code all)
    (h : ∀ e ∈ arguments, e.KeepsFlow code all) {s : Scope} {opcode : Opcode} {p : Position}
    (hopcode : opcode = .callReturn ∨ opcode = .callDiscard)
    (hlaid : ArgumentsLaid code s arguments)
    (hcallee : code.HoldsCallee (argumentsBehind s arguments) callee
      (callee.Laid code (argumentsBehind s arguments)))
    (hholds : code.Holds
      ((argumentsBehind s arguments).behindCallee callee fun s => callee.behind s).address
      opcode arguments.length p)
    (hapart : Apart all (argumentsBodies s arguments ++
        (argumentsBehind s arguments).calleeBodies callee fun s => callee.bodies s) s.address
      (((argumentsBehind s arguments).behindCallee callee fun s => callee.behind s).address + 1)) :
    code.KeepsFrom all s.address
      (((argumentsBehind s arguments).behindCallee callee fun s => callee.behind s).address +
        1) := by
  obtain ⟨hle, hlie⟩ := calleeBodies_lie ((bodies_lie code).expr callee) hcallee
  have hle' := hlaid.le
  have hinner := hapart.mono (Nat.le_refl s.address) (Nat.le_succ _)
  have hplain : opcode ≠ .goto ∧ opcode ≠ .ifTrueGoto ∧ opcode ≠ .ret ∧
      opcode ≠ .pushFunction := by
    rcases hopcode with rfl | rfl <;> decide
  refine ((arguments_keep h hlaid (hinner.left hle hlie)).trans
    (callee_keeps hc hcallee (hinner.right hle' hlaid.lie))).trans (.plain hholds hplain ?_)
  exact hapart.same_behind ((hlaid.lie.mono (Nat.le_refl _) hle).append
    (hlie.mono hle' (Nat.le_refl _))) (Nat.le_trans hle' hle)

theorem Expr.Laid.heightAt_branch {e : Expr} {s : Scope} {n : Nat} {p : Position}
    (h : e.Laid code s) (hbranch : code.HoldsBranch (e.behind s).address n p)
    (hcheck : code.checkStack = .ok ()) :
    code.heightAt ((e.behind s).address + 2) = code.heightAt s.address :=
  Nat.succ.inj ((hbranch.heightAt hcheck).trans (h.heightAt hcheck))

/-- A condition and the test of its value, which leads on or leaves for `n`. -/
theorem condition_keeps {e : Expr} (h : e.KeepsFlow code all)
    (hcheck : code.checkStack = .ok ()) {s : Scope} {n : Nat} {p : Position}
    (hlaid : e.Laid code s) (hbranch : code.HoldsBranch (e.behind s).address n p)
    (hapart : Apart all (e.bodies s) s.address ((e.behind s).address + 2))
    (hout : SameBodies all s.address n) (hheight : code.heightAt n = code.heightAt s.address) :
    code.KeepsFrom all s.address ((e.behind s).address + 2) ∧
      SameBodies all s.address ((e.behind s).address + 2) := by
  have hle := hlaid.le
  have hin := hapart.same
    fun x (hx : x = s.address ∨ (e.behind s).address ≤ x ∧ x ≤ (e.behind s).address + 2) =>
      ⟨by omega, by omega, hlaid.lie.clear (by omega)⟩
  have hsame (x y : Nat)
      (hx : (e.behind s).address ≤ x ∧ x ≤ (e.behind s).address + 2 ∨ x = n)
      (hy : (e.behind s).address ≤ y ∧ y ≤ (e.behind s).address + 2 ∨ y = n) :
      SameBodies all x y := by
    have hstart {x : Nat} (hx : (e.behind s).address ≤ x ∧ x ≤ (e.behind s).address + 2 ∨ x = n) :
        SameBodies all s.address x := by
      rcases hx with hx | rfl
      · exact hin _ x (.inl rfl) (.inr hx)
      · exact hout
    exact (hstart hx).symm.trans (hstart hy)
  have hcondition := h s hlaid (hapart.mono (Nat.le_refl _) (Nat.le_add_right _ 2))
  have hbranchHeight := hlaid.heightAt hcheck
  have htest : code.KeepsFrom all (e.behind s).address _ :=
    .branch hbranch hcheck hsame (by omega)
  exact ⟨hcondition.trans htest, hin _ _ (by omega) (by omega)⟩

theorem logical_keeps {op : LogicalOp} {left right : Expr} (p : Position)
    (hcheck : code.checkStack = .ok ()) (hleft : left.KeepsFlow code all)
    (hright : right.KeepsFlow code all) :
    (Expr.logical op left right p).KeepsFlow code all := by
  intro s hlaid hapart
  obtain ⟨hlaid, htest, hlaid', hnot, hlast⟩ := hlaid
  rw [Expr.behind, Scope.address_skip, Expr.bodies] at hapart
  rw [Expr.behind, Scope.address_skip]
  have hle := hlaid.le
  have hle' := hlaid'.le
  have hlie' := hlaid'.lie
  have hheight := hlaid.heightAt hcheck
  have hheight' := hlaid'.heightAt hcheck
  have hright := hright _ hlaid'
  rw [Scope.address_skip] at hle' hlie' hheight' hright
  have hsame := hapart.same
    fun x (hx : (left.behind s).address ≤ x ∧ x ≤ (left.behind s).address + op.gap ∨
      (right.behind ((left.behind s).skip op.gap)).address ≤ x ∧
        x ≤ (right.behind ((left.behind s).skip op.gap)).address + 2) =>
    ⟨by omega, by omega, clear_append (hlaid.lie.clear (by omega)) (hlie'.clear (by omega))⟩
  have htestHeight := htest.heightAt hcheck
  have hleft := hleft s hlaid
    (hapart.left (by omega) (hlie'.mono (Nat.le_add_right _ _) (Nat.le_add_right _ _)))
  have htest : code.KeepsFrom all (left.behind s).address _ :=
    .logicalTest htest hcheck (fun x y hx hy => hsame x y (by omega) (by omega)) (by omega)
      (by omega)
  have hright := hright ((hapart.right (Nat.le_add_right_of_le hle)
    (hlaid.lie.mono (Nat.le_refl _) (Nat.le_add_right _ _))).mono (Nat.le_refl _) (by omega))
  have hnot : code.KeepsFrom all (right.behind ((left.behind s).skip op.gap)).address _ :=
    .plain hnot (by decide) (hsame _ _ (by omega) (by omega))
  have hlast : code.KeepsFrom all ((right.behind ((left.behind s).skip op.gap)).address + 1) _ :=
    .plain hlast (by decide) (hsame _ _ (by omega) (by omega))
  exact (((hleft.trans htest).trans hright).trans hnot).trans hlast

/-- The body of a function is left only by its return, and no jump leads into it. -/
theorem function_keeps {body : Stmt} (p : Position) (hcheck : code.checkStack = .ok ())
    (h : body.KeepsFlow code all) :
    (Expr.function body p).KeepsFlow code all := by
  intro s hlaid hapart
  obtain ⟨hgoto, hlaid, hret, hpush⟩ := hlaid
  rw [Expr.behind, Scope.address_skip, Expr.bodies] at hapart
  rw [Expr.behind, Scope.address_skip]
  have hle := hlaid.le
  have hlie := hlaid.lie
  have hbody := h _ hlaid
  have hheight := hlaid.heightAt hcheck
  have hgotoHeight := hgoto.heightAt hcheck rfl
  have hretHeight := hret.heightAt hcheck rfl
  rw [Scope.address_skip] at hle hlie hbody hheight
  have hmem := hapart.mem _ List.mem_cons_self
  have hsettled : code.Settled all (s.address + 1) := .of_first hmem hle
  have hinner := hapart.inner (Nat.le_succ _) (Nat.le_add_right _ _)
  have hclear (x : Nat) (hx : x = s.address ∨ (body.behind (s.skip 1)).address < x) :
      ∀ b ∈ Body.mk (s.address + 1) (body.behind (s.skip 1)).address :: body.bodies (s.skip 1),
        ¬b.Holds x := by
    intro b hb
    rcases List.mem_cons.1 hb with rfl | hb
    · unfold Body.Holds
      dsimp only
      omega
    · exact hlie.clear (by omega) b hb
  -- The addresses around the body are in the same bodies, and so are its two ends.
  have hsame := hapart.same
    fun x (hx : x = s.address ∨ (body.behind (s.skip 1)).address < x ∧
      x ≤ (body.behind (s.skip 1)).address + 2) =>
    ⟨by omega, by omega, hclear x (by omega)⟩
  have hin := hinner.same
    fun x (hx : x = s.address + 1 ∨ x = (body.behind (s.skip 1)).address) =>
    ⟨by dsimp only; omega, by dsimp only; omega, hlie.clear (by omega)⟩
  have hgoto : code.KeepsFrom all s.address (s.address + 1) :=
    .goto hgoto (hsame _ _ (by omega) (by omega)) (by omega)
  have hret : code.KeepsFrom all (body.behind (s.skip 1)).address _ :=
    .ret hret hsettled (hin _ _ (.inl rfl) (.inr rfl)) (by omega)
  have hpush : code.KeepsFrom all ((body.behind (s.skip 1)).address + 1) _ :=
    .function hpush (hsame _ _ (by omega) (by omega)) ⟨_, hmem, rfl⟩
  exact ((hgoto.trans (hbody hinner hsettled)).trans hret).trans hpush

theorem ifThen_keeps {condition : Expr} {body : Stmt} (p : Position)
    (hcheck : code.checkStack = .ok ()) (hcondition : condition.KeepsFlow code all)
    (hbody : body.KeepsFlow code all) :
    (Stmt.ifThen condition body p).KeepsFlow code all := by
  intro s hlaid hapart hsettled
  obtain ⟨hlaid, hbranch, hlaid'⟩ := hlaid
  rw [Stmt.behind, Stmt.bodies] at hapart
  rw [Stmt.behind]
  have hle := hlaid.le
  have hle' := hlaid'.le
  have hlie' := hlaid'.lie
  have hheight' := hlaid'.heightAt hcheck
  have hbody := hbody _ hlaid'
  rw [Scope.address_skip] at hle' hlie' hheight' hbody
  have hbranchHeight := hlaid.heightAt_branch hbranch hcheck
  have hsame := hapart.same
    fun x (hx : x = s.address ∨ x = (body.behind ((condition.behind s).skip 2)).address) =>
    ⟨by omega, by omega, clear_append (hlaid.lie.clear (by omega)) (hlie'.clear (by omega))⟩
  obtain ⟨hkeeps, hin⟩ := condition_keeps hcondition hcheck hlaid hbranch
    (hapart.left hle' hlie') (hsame _ _ (.inl rfl) (.inr rfl)) (by omega)
  have hbody := hbody (hapart.right (Nat.le_add_right_of_le hle)
    (hlaid.lie.mono (Nat.le_refl _) (Nat.le_add_right _ _))) (hsettled.of_same hin hbranchHeight)
  exact hkeeps.trans hbody

theorem ifElse_keeps {condition : Expr} {body other : Stmt} (p : Position)
    (hcheck : code.checkStack = .ok ()) (hcondition : condition.KeepsFlow code all)
    (hbody : body.KeepsFlow code all) (hother : other.KeepsFlow code all) :
    (Stmt.ifElse condition body other p).KeepsFlow code all := by
  intro s hlaid hapart hsettled
  obtain ⟨hlaid, hbranch, hlaid', hgoto, hlaid''⟩ := hlaid
  rw [Stmt.behind, Stmt.bodies] at hapart
  rw [Stmt.behind]
  have hle := hlaid.le
  have hle' := hlaid'.le
  have hle'' := hlaid''.le
  have hlie := hlaid.lie
  have hlie' := hlaid'.lie
  have hlie'' := hlaid''.lie
  have hheight' := hlaid'.heightAt hcheck
  have hheight'' := hlaid''.heightAt hcheck
  have hgotoHeight := hgoto.heightAt hcheck rfl
  have hbody := hbody _ hlaid'
  have hother := hother _ hlaid''
  rw [Scope.address_skip] at hle' hle'' hlie' hlie'' hheight' hheight'' hbody hother
  have hbranchHeight := hlaid.heightAt_branch hbranch hcheck
  -- The ends of the two bodies lie in none of the functions that are written in them.
  have hsame := hapart.same
    fun x (hx : x = s.address ∨ x = (body.behind ((condition.behind s).skip 2)).address ∨
      x = (body.behind ((condition.behind s).skip 2)).address + 1 ∨
      x = (other.behind ((body.behind ((condition.behind s).skip 2)).skip 1)).address) =>
    ⟨by omega, by omega, clear_append (hlie.clear (by omega))
      (clear_append (hlie'.clear (by omega)) (hlie''.clear (by omega)))⟩
  obtain ⟨hkeeps, hin⟩ := condition_keeps hcondition hcheck hlaid hbranch
    (hapart.left (by omega) ((hlie'.mono (Nat.le_refl _) (by omega)).append
      (hlie''.mono (by omega) (Nat.le_refl _))))
    (hsame _ _ (by omega) (by omega)) (by omega)
  have hbehind := hapart.right (Nat.le_add_right_of_le hle)
    (hlie.mono (Nat.le_refl _) (Nat.le_add_right _ 2))
  have hbody := hbody (hbehind.left (Nat.le_of_succ_le hle'')
    (hlie''.mono (Nat.le_succ _) (Nat.le_refl _))) (hsettled.of_same hin hbranchHeight)
  have hgoto : code.KeepsFrom all (body.behind ((condition.behind s).skip 2)).address _ :=
    .goto hgoto (hsame _ _ (by omega) (by omega)) (by omega)
  have hother := hother (hbehind.right (Nat.le_succ_of_le hle')
      (hlie'.mono (Nat.le_refl _) (Nat.le_succ _)))
    (hsettled.of_same (hsame _ _ (by omega) (by omega)) (by omega))
  exact ((hkeeps.trans hbody).trans hgoto).trans hother

theorem whileDo_keeps {condition : Expr} {body : Stmt} (p : Position)
    (hcheck : code.checkStack = .ok ()) (hcondition : condition.KeepsFlow code all)
    (hbody : body.KeepsFlow code all) :
    (Stmt.whileDo condition body p).KeepsFlow code all := by
  intro s hlaid hapart hsettled
  obtain ⟨hlaid, hbranch, hlaid', hgoto⟩ := hlaid
  rw [Stmt.behind, Stmt.bodies, Scope.address_skip] at hapart
  rw [Stmt.behind, Scope.address_skip]
  have hle := hlaid.le
  have hle' := hlaid'.le
  have hlie' := hlaid'.lie
  have hheight' := hlaid'.heightAt hcheck
  have hgotoHeight := hgoto.heightAt hcheck rfl
  have hbody := hbody _ hlaid'
  rw [Scope.address_skip] at hle' hlie' hheight' hbody
  have hbranchHeight := hlaid.heightAt_branch hbranch hcheck
  have hsame := hapart.same
    fun x (hx : x = s.address ∨ x = (body.behind ((condition.behind s).skip 2)).address ∨
      x = (body.behind ((condition.behind s).skip 2)).address + 1) =>
    ⟨by omega, by omega, clear_append (hlaid.lie.clear (by omega)) (hlie'.clear (by omega))⟩
  obtain ⟨hkeeps, hin⟩ := condition_keeps hcondition hcheck hlaid hbranch
    (hapart.left (Nat.le_succ_of_le hle') (hlie'.mono (Nat.le_refl _) (Nat.le_succ _)))
    (hsame _ _ (by omega) (by omega)) (by omega)
  have hbody := hbody ((hapart.right (Nat.le_add_right_of_le hle)
    (hlaid.lie.mono (Nat.le_refl _) (Nat.le_add_right _ _))).mono (Nat.le_refl _)
      (Nat.le_succ _)) (hsettled.of_same hin hbranchHeight)
  have hback : code.KeepsFrom all (body.behind ((condition.behind s).skip 2)).address _ :=
    .goto hgoto (hsame _ _ (by omega) (by omega)) (by omega)
  exact (hkeeps.trans hbody).trans hback

theorem laid_keeps (code : Code) (all : List Body) (hcheck : code.checkStack = .ok ()) :
    Tree.Cases (Expr.KeepsFlow code all) (Stmt.KeepsFlow code all) where
  literal value p s hlaid hapart := by
    rw [Expr.behind, Scope.address_skip] at hapart ⊢
    exact .literal hlaid hapart.same_one
  name text p s hlaid hapart := by
    rw [Expr.behind, Scope.address_skip] at hapart ⊢
    exact .text hlaid (.inr (.inl rfl)) hapart.same_one
  group inner p h s hlaid hapart := h s hlaid hapart
  unary op operand p h s hlaid hapart := by
    obtain ⟨hlaid, hholds⟩ := hlaid
    rw [Expr.behind, Scope.address_skip, Expr.bodies] at hapart
    rw [Expr.behind, Scope.address_skip]
    exact h.with_one hlaid hapart (.plain hholds (by cases op <;> decide))
  binary op left right p hleft hright s hlaid hapart := by
    obtain ⟨hlaid, hlaid', hholds⟩ := hlaid
    rw [Expr.behind, Scope.address_skip, Expr.bodies] at hapart
    rw [Expr.behind, Scope.address_skip]
    have hle := hlaid.le
    have hle' := hlaid'.le
    have hinner := hapart.mono (Nat.le_refl s.address) (Nat.le_succ _)
    refine ((hleft s hlaid (hinner.left hle' hlaid'.lie)).trans
      (hright _ hlaid' (hinner.right hle hlaid.lie))).trans ?_
    refine .plain hholds (by cases op <;> decide) ?_
    exact hapart.same_behind ((hlaid.lie.mono (Nat.le_refl _) hle').append
      (hlaid'.lie.mono hle (Nat.le_refl _))) (Nat.le_trans hle hle')
  logical op left right p hleft hright := logical_keeps p hcheck hleft hright
  function body p h := function_keeps p hcheck h
  call callee arguments p hc h s hlaid hapart := by
    obtain ⟨hlaid, hcallee, hholds⟩ := hlaid
    exact call_keeps hc h (.inl rfl) hlaid hcallee hholds hapart
  index callee arguments p _ _ s hlaid _ := hlaid.elim
  member parent child p _ _ s hlaid hapart := by
    rw [Expr.behind, Scope.address_skip] at hapart ⊢
    unfold Expr.Laid at hlaid
    split at hlaid
    · exact .text hlaid (.inr (.inl rfl)) hapart.same_one
    · exact hlaid.elim
  empty p s _ _ _ := .refl
  declare name value p h s hlaid hapart _ := by
    obtain ⟨hlaid, hholds⟩ := hlaid
    rw [Stmt.behind, Scope.address_skip, Stmt.bodies] at hapart
    rw [Stmt.behind, Scope.address_skip]
    rw [← s.address_declare name] at hapart ⊢
    exact h.with_one hlaid hapart (.text hholds (.inr (.inr (.inl rfl))))
  block body p h s hlaid hapart hsettled := statements_keep h hcheck hlaid hapart hsettled
  returnNull p s hlaid hapart hsettled := by
    rw [Stmt.behind, Scope.address_skip] at hapart ⊢
    exact .ret hlaid hsettled (fun _ _ => Iff.rfl) rfl
  returnValue value p h s hlaid hapart hsettled := by
    obtain ⟨hlaid, hret⟩ := hlaid
    rw [Stmt.behind, Scope.address_skip, Stmt.bodies] at hapart
    rw [Stmt.behind, Scope.address_skip]
    have hle := hlaid.le
    refine (h s hlaid (hapart.mono (Nat.le_refl _) (Nat.le_succ _))).trans ?_
    have hsame := hapart.same fun x (hx : x = s.address ∨ x = (value.behind s).address) =>
      ⟨by omega, by omega, hlaid.lie.clear (by omega)⟩
    exact .ret hret hsettled (hsame _ _ (.inl rfl) (.inr rfl)) (hlaid.heightAt hcheck)
  ifThen condition body p hcondition hbody := ifThen_keeps p hcheck hcondition hbody
  ifElse condition body other p hcondition hbody hother :=
    ifElse_keeps p hcheck hcondition hbody hother
  whileDo condition body p hcondition hbody := whileDo_keeps p hcheck hcondition hbody
  discard callee arguments q p hc h s hlaid hapart _ := by
    obtain ⟨hlaid, hcallee, hholds⟩ := hlaid
    exact call_keeps hc h (.inr rfl) hlaid hcallee hholds hapart
  value value p hcall h s hlaid hapart _ := by
    rw [Stmt.Laid] at hlaid
    · obtain ⟨hlaid, hpop⟩ := hlaid
      rw [Stmt.behind, Stmt.bodies, Scope.address_skip] at hapart
      rw [Stmt.behind, Scope.address_skip]
      · exact h.with_one hlaid hapart (.plain hpop (by decide))
      all_goals exact hcall
    · exact hcall
  assign text q value p h s hlaid hapart _ := by
    obtain ⟨hlaid, hholds⟩ := hlaid
    rw [Stmt.behind, Scope.address_skip, Stmt.bodies] at hapart
    rw [Stmt.behind, Scope.address_skip]
    exact h.with_one hlaid hapart (.text hholds (.inr (.inr (.inr rfl))))
  assignOther target value p hname _ _ s hlaid _ _ := by
    rw [Stmt.Laid] at hlaid
    · exact hlaid.elim
    · exact hname

end Tree

/-- What runs of code rely on: it passes its check, its bodies lie inside it, every
instruction keeps to them and to the scan, and the scan ends at zero. -/
structure Code.Flows (code : Code) (bodies : List Body) : Prop where
  check : code.check = .ok ()
  lie : Lie code 0 code.size bodies
  keeps : code.KeepsFrom bodies 0 code.size
  height : code.heightAt code.size = 0

namespace Code.Flows

variable {code : Code} {bodies : List Body} {pc : Nat} {o : Option Body} {b : Body} {c : Command}

theorem checkStack (h : code.Flows bodies) : code.checkStack = .ok () := checkStack_of_check h.check

theorem fits (h : code.Flows bodies) (hc : code.instructions[pc]? = some c) :
    c.Fits code code.size :=
  ((check_eq_ok_iff.1 h.check).2 pc c hc).1

theorem keepsAt (h : code.Flows bodies) (hc : code.instructions[pc]? = some c) :
    c.Keeps code bodies pc :=
  h.keeps pc (Nat.zero_le pc) (Array.getElem?_eq_some_iff.1 hc).1 c hc

/-- No instruction takes more values than its body has put on the stack. -/
theorem pops_le (h : code.Flows bodies) (ho : IsWithin bodies o pc)
    (hc : code.instructions[pc]? = some c) :
    code.baseHeight o + c.pops ≤ code.heightAt pc := by
  cases o with
  | none =>
    rw [baseHeight, Nat.zero_add]
    exact pops_le_heightAt h.checkStack hc
  | some b =>
    obtain ⟨hb, ⟨hfirst, hlast⟩, -⟩ := ho
    exact (h.lie b hb).passes.pops_le h.checkStack hfirst (Nat.lt_succ_of_le hlast) hc

theorem heightAt_of_size_le (h : code.Flows bodies) (hpc : code.size ≤ pc) :
    code.heightAt pc = 0 := by
  have hlength : code.instructions.toList.length ≤ code.size := Nat.le_of_eq Array.length_toList
  have hend := h.height
  unfold heightAt at hend ⊢
  rw [List.take_of_length_le (Nat.le_trans hlength hpc)]
  rwa [List.take_of_length_le hlength] at hend

/-- The code begins outside all bodies. -/
theorem isWithin_zero (h : code.Flows bodies) : IsWithin bodies none 0 := by
  intro b hb hholds
  exact absurd (h.lie b hb).bounds.1 (Nat.not_lt.2 hholds.1)

theorem isWithin_first (h : code.Flows bodies) (hb : b ∈ bodies) :
    IsWithin bodies (some b) b.first :=
  ⟨hb, ⟨Nat.le_refl _, (h.lie b hb).bounds.2.1⟩, fun _ _ hholds => hholds.1⟩

theorem lt_size (h : code.Flows bodies) (ho : IsWithin bodies (some b) pc) : pc < code.size := by
  obtain ⟨hb, ⟨-, hlast⟩, -⟩ := ho
  have := (h.lie b hb).bounds.2.2
  omega

end Code.Flows

/-- The code of a script with the bodies of the functions written in it. -/
theorem Script.flows {file text : String} {script : Script}
    (hread : (Script.read file text).result = some script)
    (hclean : script.compile.faults = #[]) : script.compile.code.Flows script.bodies := by
  have hfree := Script.read_addressFree hread
  have hcheck := script.check_compile hfree hclean
  have hstack := Code.checkStack_of_check hcheck
  obtain ⟨hlaid, hsize⟩ := script.compile_laid hfree hclean
  have hlie : Lie script.compile.code 0 script.compile.code.size script.bodies := by
    rw [hsize]
    exact hlaid.lie
  have hapart : Apart script.bodies script.bodies 0 (script.root.behind {}).address :=
    ⟨fun _ hb => hb, fun _ hb => .inl hb⟩
  have hsettled : script.compile.code.Settled script.bodies 0 := by
    intro o ho
    cases o with
    | none => rfl
    | some b =>
      obtain ⟨hb, ⟨hfirst, -⟩, -⟩ := ho
      exact absurd (hlie b hb).bounds.1 (Nat.not_lt.2 hfirst)
  refine ⟨hcheck, hlie, ?_, ?_⟩
  · rw [hsize]
    exact (laid_keeps _ _ hstack).stmt script.root {} hlaid hapart hsettled
  · rw [hsize, hlaid.heightAt hstack]
    rfl

end StackScript
