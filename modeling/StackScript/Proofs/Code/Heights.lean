import StackScript.Proofs.Code.Checks
import StackScript.Proofs.Grammar.Constants

/-!
What the check of code says. The scan of the stack gives every address a height, which
an instruction takes its values from and moves by what it does to the stack. Code passes
its check exactly if every instruction has an origin, every operand fits and no height
is too small. No instruction adds more than one value, so a word holds every height of
code that is not larger than a word can count.
-/

namespace StackScript

/-- How many values an instruction takes. -/
def Command.pops (c : Command) : Nat := c.stackEffect.1

/-- How many values an instruction leaves in their place. -/
def Command.pushes (c : Command) : Nat := c.stackEffect.2

/-- The stack grows by at most one value with each instruction. -/
theorem Command.pushes_le (c : Command) : c.pushes ≤ c.pops + 1 := by
  obtain ⟨opcode, operand⟩ := c
  cases opcode <;> simp [pushes, pops, stackEffect, Opcode.stackEffect]

theorem Command.pops_lt (c : Command) : c.pops < UInt32.size := by
  obtain ⟨opcode, operand, hoperand⟩ := c
  have hsize : operandLimit + 1 < UInt32.size := by decide
  have hle : Command.pops ⟨opcode, operand, hoperand⟩ ≤ operand + 2 := by
    cases opcode <;> simp [pops, stackEffect, Opcode.stackEffect]
  omega

namespace Code

/-- The height of the stack that the scan has in front of an address. -/
def heightAt (code : Code) (pc : Nat) : Nat :=
  match scanStack 0 0 (code.instructions.toList.take pc) with
  | .ok height => height
  | .error _ => 0

variable {code : Code} {pc : Nat} {c : Command}

theorem heightAt_eq {height : Nat}
    (h : scanStack 0 0 (code.instructions.toList.take pc) = .ok height) :
    code.heightAt pc = height := by
  rw [heightAt, h]

section Scan

variable {cs ds : List Command} {height height' : Nat}

theorem scanStack_cons_eq_ok_iff : scanStack pc height (c :: cs) = .ok height' ↔
    c.pops ≤ height ∧ scanStack (pc + 1) (height - c.pops + c.pushes) cs = .ok height' := by
  rw [scanStack]
  change (if height < c.pops then _ else _) = _ ↔ _
  by_cases hlt : height < c.pops
  · rw [if_pos hlt]
    constructor
    · intro h
      cases h
    · rintro ⟨hle, -⟩
      exact absurd hlt (Nat.not_lt.2 hle)
  · rw [if_neg hlt]
    constructor
    · intro h
      exact ⟨Nat.le_of_not_lt hlt, h⟩
    · rintro ⟨-, h⟩
      exact h

theorem scanStack_append_eq_ok (h : scanStack pc height (cs ++ ds) = .ok height') :
    ∃ middle, scanStack pc height cs = .ok middle ∧
      scanStack (pc + cs.length) middle ds = .ok height' := by
  rw [scanStack_append] at h
  cases hcs : scanStack pc height cs with
  | ok middle =>
    rw [hcs] at h
    exact ⟨middle, rfl, h⟩
  | error fault =>
    rw [hcs] at h
    cases h

/-- More values below change nothing, and neither does where the instructions stand. -/
theorem scanStack_shift (h : scanStack pc height cs = .ok height') (pc' below : Nat) :
    scanStack pc' (height + below) cs = .ok (height' + below) := by
  induction cs generalizing pc pc' height with
  | nil =>
    cases h
    rfl
  | cons c cs ih =>
    obtain ⟨hle, hrest⟩ := scanStack_cons_eq_ok_iff.1 h
    have hheight : height + below - c.pops + c.pushes = height - c.pops + c.pushes + below := by
      omega
    refine scanStack_cons_eq_ok_iff.2 ⟨Nat.le_trans hle (Nat.le_add_right height below), ?_⟩
    rw [hheight]
    exact ih hrest (pc' + 1)

/-- Two scans of the same instructions move the height alike. -/
theorem scanStack_unique {pc' other other' : Nat} (h : scanStack pc height cs = .ok height')
    (h' : scanStack pc' other cs = .ok other') : height' + other = other' + height := by
  rcases Nat.le_total height other with hle | hle
  · obtain ⟨below, rfl⟩ := Nat.le.dest hle
    rw [scanStack_shift h pc' below] at h'
    cases h'
    omega
  · obtain ⟨below, rfl⟩ := Nat.le.dest hle
    rw [scanStack_shift h' pc below] at h
    cases h
    omega

end Scan

section Checked

theorem take_succ_toList (hc : code.instructions[pc]? = some c) :
    code.instructions.toList.take (pc + 1) = code.instructions.toList.take pc ++ [c] := by
  rw [List.take_add_one, Array.getElem?_toList, hc, Option.toList_some]

theorem length_take_toList (hc : code.instructions[pc]? = some c) :
    (code.instructions.toList.take pc).length = pc := by
  have hlt := (Array.getElem?_eq_some_iff.1 hc).1
  rw [List.length_take, Array.length_toList]
  omega

theorem checkStack_eq_ok_iff : code.checkStack = .ok () ↔
    ∃ height, scanStack 0 0 code.instructions.toList = .ok height := by
  unfold checkStack
  cases scanStack 0 0 code.instructions.toList with
  | ok height => simp [Except.map]
  | error fault => simp [Except.map]

/-- Where the scan goes through, it has a height in front of every address. -/
theorem scanStack_take (h : code.checkStack = .ok ()) (pc : Nat) :
    scanStack 0 0 (code.instructions.toList.take pc) = .ok (code.heightAt pc) := by
  obtain ⟨height, hscan⟩ := checkStack_eq_ok_iff.1 h
  rw [← List.take_append_drop pc code.instructions.toList] at hscan
  obtain ⟨middle, htake, -⟩ := scanStack_append_eq_ok hscan
  rw [htake, heightAt_eq htake]

theorem scanStack_one (h : code.checkStack = .ok ()) (hc : code.instructions[pc]? = some c) :
    scanStack pc (code.heightAt pc) [c] = .ok (code.heightAt (pc + 1)) := by
  have hscan := scanStack_take h (pc + 1)
  rw [take_succ_toList hc] at hscan
  obtain ⟨middle, htake, hone⟩ := scanStack_append_eq_ok hscan
  rw [length_take_toList hc, Nat.zero_add] at hone
  rwa [heightAt_eq htake]

/-- No instruction takes more values than the scan has in front of it. -/
theorem pops_le_heightAt (h : code.checkStack = .ok ())
    (hc : code.instructions[pc]? = some c) : c.pops ≤ code.heightAt pc :=
  (scanStack_cons_eq_ok_iff.1 (scanStack_one h hc)).1

theorem heightAt_succ (h : code.checkStack = .ok ()) (hc : code.instructions[pc]? = some c) :
    code.heightAt (pc + 1) = code.heightAt pc - c.pops + c.pushes := by
  obtain ⟨-, hrest⟩ := scanStack_cons_eq_ok_iff.1 (scanStack_one h hc)
  exact (Except.ok.inj hrest).symm

theorem checkStack_of_pops_le
    (h : ∀ pc c, code.instructions[pc]? = some c → c.pops ≤ code.heightAt pc) :
    code.checkStack = .ok () := by
  -- The scan goes through as far as any address, and so to the end.
  have htake (pc : Nat) (hpc : pc ≤ code.size) :
      ∃ height, scanStack 0 0 (code.instructions.toList.take pc) = .ok height := by
    induction pc with
    | zero => exact ⟨0, rfl⟩
    | succ pc ih =>
      obtain ⟨height, hheight⟩ := ih (Nat.le_of_succ_le hpc)
      have hc : code.instructions[pc]? = some code.instructions[pc] := Array.getElem?_eq_getElem hpc
      have hle := h pc _ hc
      rw [heightAt_eq hheight] at hle
      rw [take_succ_toList hc, scanStack_append, hheight]
      exact ⟨_, scanStack_cons_eq_ok_iff.2 ⟨hle, rfl⟩⟩
  have hlength : code.instructions.toList.length ≤ code.size := Nat.le_of_eq Array.length_toList
  have hall := htake code.size (Nat.le_refl code.size)
  rw [List.take_of_length_le hlength] at hall
  exact checkStack_eq_ok_iff.2 hall

theorem checkOperand_eq_ok_iff : code.checkOperand pc c = .ok () ↔ c.Fits code code.size := by
  refine ⟨fun h => ?_, checkOperand_ok⟩
  have hslot {pool : Pool} {size : Nat} (h : checkSlot pool size pc c = .ok ()) :
      c.operand.val < size := by
    unfold checkSlot at h
    split at h
    · assumption
    · cases h
  have hif {p : Prop} [Decidable p] {fault : CodeFault}
      (h : (if p then Except.ok () else Except.error fault) = .ok ()) : p := by
    split at h
    · assumption
    · cases h
  obtain ⟨opcode, operand⟩ := c
  cases opcode with
  | pushInt | pushNumber | pushString | pushGlobal | defineGlobal | setGlobal => exact hslot h
  | goto | ifTrueGoto => exact hif (p := operand.val ≤ code.size) h
  | pushFunction => exact hif (p := operand.val < code.size) h
  | pushBool | ret => exact hif (p := operand.val ≤ 1) h
  | _ => exact trivial

theorem checkOperands_eq_ok_iff {cs : List Command} :
    code.checkOperands pc cs = .ok () ↔ ∀ c ∈ cs, c.Fits code code.size := by
  refine ⟨fun h => ?_, checkOperands_ok pc⟩
  induction cs generalizing pc with
  | nil => simp
  | cons c cs ih =>
    rw [checkOperands] at h
    cases hc : code.checkOperand pc c with
    | ok _ =>
      rw [hc] at h
      exact List.forall_mem_cons.2 ⟨checkOperand_eq_ok_iff.1 hc, ih h⟩
    | error fault =>
      rw [hc] at h
      cases h

/-- Code passes its check exactly if there are as many origins as instructions, each
operand fits, and no instruction takes more values than the scan has for it. -/
theorem check_eq_ok_iff : code.check = .ok () ↔ code.origins.size = code.size ∧
    ∀ pc c, code.instructions[pc]? = some c →
      c.Fits code code.size ∧ c.pops ≤ code.heightAt pc := by
  have hmem {P : Command → Prop} : (∀ c ∈ code.instructions.toList, P c) ↔
      ∀ (pc : Nat) c, code.instructions[pc]? = some c → P c := by
    constructor
    · intro h pc c hc
      exact h c (Array.mem_toList_iff.2 (Array.mem_of_getElem? hc))
    · intro h c hc
      obtain ⟨pc, hpc⟩ := List.getElem?_of_mem hc
      exact h pc c (by rwa [← Array.getElem?_toList])
  unfold check
  by_cases horigins : code.origins.size = code.size
  · rw [if_neg (not_not_intro horigins)]
    constructor
    · intro h
      cases hoperands : code.checkOperands 0 code.instructions.toList with
      | ok _ =>
        rw [hoperands] at h
        refine ⟨horigins, fun pc c hc => ⟨?_, pops_le_heightAt h hc⟩⟩
        exact hmem.1 (checkOperands_eq_ok_iff.1 hoperands) pc c hc
      | error fault =>
        rw [hoperands] at h
        cases h
    · rintro ⟨-, h⟩
      have hfits := hmem.2 fun pc c hc => (h pc c hc).1
      rw [checkOperands_eq_ok_iff.2 hfits]
      exact checkStack_of_pops_le fun pc c hc => (h pc c hc).2
  · rw [if_pos horigins]
    constructor
    · intro h
      cases h
    · rintro ⟨h, -⟩
      exact absurd h horigins

theorem checkStack_of_check (h : code.check = .ok ()) : code.checkStack = .ok () :=
  checkStack_of_pops_le fun pc c hc => ((check_eq_ok_iff.1 h).2 pc c hc).2

end Checked

section Word

/-- The scan with the height of the stack in a word of 32 bits. -/
def scanWord (pc : Nat) (height : UInt32) : List Command → Except CodeFault UInt32
  | [] => .ok height
  | command :: rest =>
    let pops := UInt32.ofNat command.pops
    let pushes := UInt32.ofNat command.pushes
    if height < pops then .error (.stackUnderflow pc command pops.toNat height.toNat)
    else scanWord (pc + 1) (height - pops + pushes) rest

/-- The word is wide enough for the height in front of `cs` if it is wide enough for one
more value for each instruction. -/
theorem map_scanWord {cs : List Command} {height : UInt32}
    (h : height.toNat + cs.length < UInt32.size) :
    (scanWord pc height cs).map UInt32.toNat = scanStack pc height.toNat cs := by
  induction cs generalizing pc height with
  | nil => rfl
  | cons c cs ih =>
    have hpushes := c.pushes_le
    have hpops : (UInt32.ofNat c.pops).toNat = c.pops := UInt32.toNat_ofNat_of_lt' c.pops_lt
    rw [List.length_cons] at h
    rw [scanWord, scanStack]
    change Except.map _ (if _ then _ else _) = if height.toNat < c.pops then _ else _
    by_cases hlt : height.toNat < c.pops
    · rw [if_pos hlt, if_pos (UInt32.lt_iff_toNat_lt.2 (by rwa [hpops])), hpops]
      rfl
    · have hnot : ¬height < UInt32.ofNat c.pops := by
        rw [UInt32.lt_iff_toNat_lt, hpops]
        exact hlt
      have hle : UInt32.ofNat c.pops ≤ height := UInt32.not_lt.1 hnot
      have hwidth : height.toNat - c.pops + c.pushes < UInt32.size := by omega
      have hmoved : (height - UInt32.ofNat c.pops + UInt32.ofNat c.pushes).toNat =
          height.toNat - c.pops + c.pushes := by
        rw [UInt32.toNat_add, UInt32.toNat_sub_of_le _ _ hle, hpops,
          UInt32.toNat_ofNat_of_lt' (by omega)]
        exact Nat.mod_eq_of_lt hwidth
      rw [if_neg hlt, if_neg hnot, ih (by omega), hmoved]
      rfl

/-- Code of fewer than 2 ^ 32 instructions passes the scan, and fails it with the same
fault, when its height is kept in a word. -/
theorem checkStack_eq_scanWord (h : code.size < UInt32.size) :
    code.checkStack = (scanWord 0 0 code.instructions.toList).map fun _ => () := by
  have hfits : (0 : UInt32).toNat + code.instructions.toList.length < UInt32.size := by
    rwa [UInt32.toNat_zero, Nat.zero_add, Array.length_toList]
  have hscan : (scanWord 0 0 code.instructions.toList).map UInt32.toNat =
      scanStack 0 0 code.instructions.toList := map_scanWord hfits
  rw [checkStack, ← hscan]
  cases scanWord 0 0 code.instructions.toList with
  | ok height => rfl
  | error fault => rfl

end Word

namespace Passes

variable {bound first middle last height height' : Nat}

theorem split (h : code.Passes bound first height last height') (hfirst : first ≤ middle)
    (hlast : middle ≤ last) :
    ∃ height'', code.Passes bound first height middle height'' ∧
      code.Passes bound middle height'' last height' := by
  obtain ⟨cs, rfl, hat, hfits, hscan⟩ := h
  obtain ⟨n, rfl⟩ := Nat.le.dest hfirst
  have hn : n ≤ cs.length := by omega
  have htake : (cs.take n).length = n := List.length_take_of_le hn
  rw [← List.take_append_drop n cs] at hscan
  obtain ⟨height'', hbefore, hbehind⟩ := scanStack_append_eq_ok hscan
  rw [htake] at hbehind
  refine ⟨height'', ⟨cs.take n, by rw [htake], ?_, ?_, hbefore⟩,
    ⟨cs.drop n, by rw [List.length_drop]; omega, ?_, ?_, hbehind⟩⟩
  · intro i hi
    rw [htake] at hi
    rw [List.getElem?_take_of_lt hi]
    exact hat i (by omega)
  · intro c hc
    exact hfits c (List.mem_of_mem_take hc)
  · intro i hi
    rw [List.length_drop] at hi
    rw [List.getElem?_drop, Nat.add_assoc]
    exact hat (n + i) (by omega)
  · intro c hc
    exact hfits c (List.mem_of_mem_drop hc)

/-- What a part of the code does to the height of the scan. -/
theorem heightAt_add (h : code.Passes bound first height last height')
    (hcheck : code.checkStack = .ok ()) :
    code.heightAt last + height = code.heightAt first + height' := by
  obtain ⟨cs, rfl, hat, -, hscan⟩ := h
  have hcs : (code.instructions.toList.drop first).take cs.length = cs := by
    refine List.ext_getElem? fun i => ?_
    by_cases hi : i < cs.length
    · rw [List.getElem?_take_of_lt hi, List.getElem?_drop, Array.getElem?_toList, hat i hi]
    · rw [List.getElem?_take_eq_none (Nat.le_of_not_lt hi),
        List.getElem?_eq_none (Nat.le_of_not_lt hi)]
  have hlast := scanStack_take hcheck (first + cs.length)
  rw [List.take_add, hcs] at hlast
  obtain ⟨middle, hbefore, hreal⟩ := scanStack_append_eq_ok hlast
  rw [heightAt_eq hbefore]
  exact (scanStack_unique hreal hscan).trans (Nat.add_comm _ _)

/-- No instruction of a part takes more values than the part has put there, or has found
there when it began. -/
theorem pops_le (h : code.Passes bound first height last height')
    (hcheck : code.checkStack = .ok ()) (hfirst : first ≤ pc) (hlast : pc < last)
    (hc : code.instructions[pc]? = some c) :
    code.heightAt first + c.pops ≤ code.heightAt pc + height := by
  obtain ⟨height'', hbefore, hbehind⟩ := h.split hfirst (Nat.le_of_lt hlast)
  have hheight := hbefore.heightAt_add hcheck
  obtain ⟨cs, hlength, hat, -, hscan⟩ := hbehind
  cases cs with
  | nil =>
    rw [List.length_nil] at hlength
    omega
  | cons c' cs =>
    have hc' := hat 0 (by simp)
    rw [Nat.add_zero, hc] at hc'
    obtain rfl := Option.some.inj hc'
    have hle := (scanStack_cons_eq_ok_iff.1 hscan).1
    omega

end Passes

end Code

namespace Script

/-- The code of a script that has nothing wrong with it passes the check: it has as many
origins as instructions, every operand fits, and the scan of the stack never goes below
zero. -/
theorem compiled_code_checks {file text : String} {script : Script}
    (hread : (Script.read file text).result = some script)
    (hclean : script.compile.faults = #[]) :
    script.compile.code.check = .ok () ∧
      script.compile.code.origins.size = script.compile.code.size ∧
      ∀ pc c, script.compile.code.instructions[pc]? = some c →
        c.Fits script.compile.code script.compile.code.size ∧
          c.pops ≤ script.compile.code.heightAt pc := by
  have hcheck := script.check_compile (Script.read_addressFree hread) hclean
  exact ⟨hcheck, Code.check_eq_ok_iff.1 hcheck⟩

theorem exists_of_reads {text : String} {p q : Script → Prop} [DecidablePred p]
    (h : (Script.read "" text).result.any (p ·) = true)
    (hq : ∀ script, (Script.read "" text).result = some script → p script → q script) :
    ∃ script, (Script.read "" text).result = some script ∧ p script ∧ q script := by
  obtain ⟨script, hread, hp⟩ := (Option.any_eq_true _ _).1 h
  exact ⟨script, hread, of_decide_eq_true hp, hq script hread (of_decide_eq_true hp)⟩

theorem compiled_code_checks_nested :
    ∃ script,
      (Script.read "" "var f = fun() { while (a || b) f(fun() return;); }; f(1);").result =
        some script ∧
      script.compile.faults = #[] ∧
      script.compile.code.check = .ok () ∧
      script.compile.code.origins.size = script.compile.code.size ∧
      ∀ pc c, script.compile.code.instructions[pc]? = some c →
        c.Fits script.compile.code script.compile.code.size ∧
          c.pops ≤ script.compile.code.heightAt pc :=
  exists_of_reads (by decide +kernel) fun _ => compiled_code_checks

end Script

end StackScript
