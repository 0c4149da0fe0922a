import StackScript.Code.File
import StackScript.Proofs.Bytes.Economy

/-!
Code kept in files. A written file gives back the code that it was made from, if that code
passes its check, and otherwise the fault that the check finds. A file that breaks off is
never taken for another one. Files that no writer made are read too, but none of them is
shorter than the file of the code that it holds.
-/

namespace StackScript

open Bytes Reader

def Origin.Storable (o : Origin) : Prop :=
  PositionFits o.position ∧ ListFits PositionFits o.operands

namespace Code

/-- No list and no text of the code is longer than a word can tell, as is the case with all
that a memory can hold. -/
structure Storable (code : Code) : Prop where
  instructions : code.instructions.toList.length < lengthLimit
  strings : ListFits TextFits code.strings.toList
  ints : code.ints.toList.length < lengthLimit
  numbers : code.numbers.toList.length < lengthLimit
  origins : ListFits Origin.Storable code.origins.toList

section Written

theorem toNat_word (c : Command) :
    c.word.toNat = operandLimit * c.opcode.code + c.operand.val := by
  have hcode := c.opcode.code_lt
  have hoperand : c.operand.val < 0x4000000 := c.operand.isLt
  rw [Nat.mul_comm]
  refine UInt32.toNat_ofNat_of_lt' ?_
  change c.opcode.code * 0x4000000 + c.operand.val < 0x100000000
  omega

theorem ofWord?_eq {w : UInt32} {c : Command} (hcode : w.toNat / operandLimit = c.opcode.code)
    (hoperand : w.toNat % operandLimit = c.operand.val) : Command.ofWord? w = .ok c := by
  unfold Command.ofWord?
  simp only [hcode, Opcode.ofCode?_code]
  exact congrArg (fun operand => Except.ok (Command.mk c.opcode operand)) (Fin.ext hoperand)

theorem ofWord?_word (c : Command) : Command.ofWord? c.word = .ok c := by
  have hlimit : 0 < operandLimit := Nat.lt_of_le_of_lt (Nat.zero_le _) c.operand.isLt
  apply ofWord?_eq
  · rw [toNat_word, Nat.mul_add_div hlimit, Nat.div_eq_of_lt c.operand.isLt, Nat.add_zero]
  · rw [toNat_word, Nat.mul_add_mod, Nat.mod_eq_of_lt c.operand.isLt]

theorem accepts_command (c : Command) : readCommand.Accepts (ofWord c.word) c := by
  refine (accepts_word c.word).ends ?_
  rw [ofWord?_word]

theorem accepts_origin {o : Origin} (h : o.Storable) : readOrigin.Accepts (ofOrigin o) o := by
  have hoperands := accepts_array o.operands.toArray h.2 fun _ => accepts_position
  exact (accepts_position h.1).bind (hoperands.ends rfl)

theorem accepts_body {code : Code} (h : code.Storable) : readBody.Accepts code.body code := by
  have hinstructions : (array readCommand).Accepts
      (ofList (fun c => ofWord c.word) code.instructions.toList) code.instructions :=
    accepts_array _ ⟨h.instructions, fun _ _ => trivial⟩ fun c _ => accepts_command c
  have hstrings : (array text).Accepts (ofList ofText code.strings.toList) code.strings :=
    accepts_array _ h.strings fun _ => accepts_text
  have hints : (array int).Accepts (ofList ofInt code.ints.toList) code.ints :=
    accepts_array _ ⟨h.ints, fun _ _ => trivial⟩ fun i _ => accepts_int i
  have hnumbers : (array single).Accepts (ofList ofSingle code.numbers.toList) code.numbers :=
    accepts_array _ ⟨h.numbers, fun _ _ => trivial⟩ fun x _ => accepts_single x
  have horigins : (array readOrigin).Accepts (ofList ofOrigin code.origins.toList) code.origins :=
    accepts_array _ h.origins fun _ => accepts_origin
  refine Accepts.of_eq ?_ (by rw [body, List.append_assoc, List.append_assoc, List.append_assoc])
  exact hinstructions.bind (hstrings.bind (hints.bind (hnumbers.bind (horigins.ends rfl))))

/-- A file with the right head is read as its body is. -/
theorem ofBytes_head (rest : List UInt8) :
    ofBytes (magic ++ [UInt8.ofNat formatVersion, UInt8.ofNat (formatVersion / 256)] ++ rest) =
      match readBody rest with
      | .error fault => .error (.malformed fault)
      | .ok (code, _) =>
        match code.check with
        | .error fault => .error (.invalid fault)
        | .ok _ => .ok code := rfl

theorem ofBytes_written {code : Code} (h : code.Storable) (behind : List UInt8) :
    ofBytes (code.toBytes ++ behind) =
      match code.check with
      | .ok _ => .ok code
      | .error fault => .error (.invalid fault) := by
  rw [toBytes, List.append_assoc, ofBytes_head, (accepts_body h).whole]
  dsimp only
  cases code.check <;> rfl

/-- A file needs its head of six bytes. -/
theorem ofBytes_of_short {bytes : List UInt8} (h : bytes.length < 6) :
    ofBytes bytes = .error .badMagic := by
  unfold ofBytes
  have hdrop : (bytes.drop magic.length).length < 2 := by
    rw [List.length_drop]
    change bytes.length - 4 < 2
    omega
  split
  · next heq =>
    rw [heq, List.length_cons, List.length_cons] at hdrop
    omega
  · rfl

theorem ofBytes_of_cut {code : Code} (h : code.Storable) {front missing : List UInt8}
    (happend : front ++ missing = code.toBytes) (hne : missing ≠ []) :
    ofBytes front = .error (if front.length < 6 then .badMagic else .malformed .endOfBytes) := by
  split
  · next hshort => exact ofBytes_of_short hshort
  · next hlong =>
    have hhead : magic ++ [UInt8.ofNat formatVersion, UInt8.ofNat (formatVersion / 256)] <+:
        front :=
      List.prefix_of_prefix_length_le (List.prefix_append _ code.body) ⟨missing, happend⟩
        (Nat.le_of_not_lt hlong)
    obtain ⟨front', rfl⟩ := hhead
    rw [toBytes, List.append_assoc] at happend
    rw [ofBytes_head, (accepts_body h).cut front' missing (List.append_cancel_left happend) hne]

end Written

section Read

theorem word_of_ofWord? {w : UInt32} {c : Command} (h : Command.ofWord? w = .ok c) :
    c.word = w := by
  unfold Command.ofWord? at h
  dsimp only at h
  split at h
  · next op hop =>
    cases h
    rw [Command.word, Command.toNat, Opcode.code_of_ofCode? hop, Nat.mul_comm,
      Nat.div_add_mod, UInt32.ofNat_toNat]
  · cases h

theorem covers_command : readCommand.Covers (fun c => ofWord c.word) fun _ => True := by
  intro taken c rest h
  obtain ⟨w, between, hw, hmade⟩ := bind_eq_ok h
  have hlength := (covers_word taken w between hw).2
  cases hc : Command.ofWord? w with
  | error _ =>
    rw [hc] at hmade
    cases hmade
  | ok made =>
    rw [hc] at hmade
    cases hmade
    obtain rfl := word_of_ofWord? hc
    exact ⟨trivial, hlength⟩

theorem covers_origin : readOrigin.Covers ofOrigin Origin.Storable := by
  intro taken o rest h
  obtain ⟨p, _, hp, h⟩ := bind_eq_ok h
  obtain ⟨operands, _, hoperands, h⟩ := bind_eq_ok h
  cases h
  have hposition := covers_position _ _ _ hp
  have hall := covers_position.array hoperands
  refine ⟨⟨hposition.1, hall.1⟩, ?_⟩
  simp only [ofOrigin, List.length_append]
  omega

theorem covers_body : readBody.Covers body Storable := by
  intro taken code rest h
  obtain ⟨instructions, _, hinstructions, h⟩ := bind_eq_ok h
  obtain ⟨strings, _, hstrings, h⟩ := bind_eq_ok h
  obtain ⟨ints, _, hints, h⟩ := bind_eq_ok h
  obtain ⟨numbers, _, hnumbers, h⟩ := bind_eq_ok h
  obtain ⟨origins, _, horigins, h⟩ := bind_eq_ok h
  cases h
  have h₁ := covers_command.array hinstructions
  have h₂ := covers_text.array hstrings
  have h₃ := covers_int.array hints
  have h₄ := covers_single.array hnumbers
  have h₅ := covers_origin.array horigins
  refine ⟨⟨h₁.1.1, h₂.1, h₃.1.1, h₄.1.1, h₅.1⟩, ?_⟩
  simp only [body, List.length_append]
  omega

theorem exists_body_of_ofBytes {bytes : List UInt8} {code : Code} (h : ofBytes bytes = .ok code) :
    ∃ rest behind, readBody rest = .ok (code, behind) ∧ rest.length + 6 = bytes.length := by
  unfold ofBytes at h
  split at h
  · next lo hi rest hdrop =>
    split at h
    · cases h
    · dsimp only at h
      split at h
      · cases h
      · split at h
        · cases h
        · next found behind hbody =>
          split at h
          · cases h
          · cases h
            refine ⟨rest, behind, hbody, ?_⟩
            have hlength := congrArg List.length hdrop
            rw [List.length_drop, List.length_cons, List.length_cons] at hlength
            change bytes.length - 4 = _ at hlength
            omega
  · cases h

theorem length_le_of_ofBytes {bytes : List UInt8} {code : Code} (h : ofBytes bytes = .ok code) :
    code.Storable ∧ code.toBytes.length ≤ bytes.length := by
  obtain ⟨rest, behind, hread, hlength⟩ := exists_body_of_ofBytes h
  obtain ⟨hstorable, hle⟩ := covers_body rest code behind hread
  refine ⟨hstorable, ?_⟩
  rw [toBytes, List.length_append]
  change 6 + code.body.length ≤ _
  omega

end Read

/-- A file gives back the code that it was written from, whatever is behind it, if the code
passes its check, and the fault of the check if not. What is read from any file at all can be
written, and in no more bytes. -/
theorem file_round_trip :
    (∀ code : Code, code.Storable → ∀ behind,
      ofBytes (code.toBytes ++ behind) =
        match code.check with
        | .ok _ => .ok code
        | .error fault => .error (.invalid fault)) ∧
    ∀ bytes code, ofBytes bytes = .ok code →
      code.Storable ∧ code.toBytes.length ≤ bytes.length :=
  ⟨fun _ h behind => ofBytes_written h behind, fun _ _ h => length_le_of_ofBytes h⟩

/-- Code with something in each of its lists, and among them a NaN. -/
def pushed : Code where
  instructions := #[⟨.pushNumber, .zero⟩, ⟨.pop, .ofBool true⟩]
  strings := #["é"]
  ints := #[-1]
  numbers := #[Single.nan]
  origins := #[⟨⟨"f", 1, 1⟩, []⟩, ⟨⟨"f", 1, 300⟩, [⟨"g", 2, 1⟩]⟩]

theorem pushed_storable : pushed.Storable := by
  refine ⟨by decide, ?_, by decide, by decide, ?_⟩
  · unfold ListFits TextFits
    decide
  · unfold ListFits Origin.Storable ListFits PositionFits TextFits
    decide

/-- The second file tells an empty list with a byte too many. -/
theorem file_round_trip_pushed :
    pushed.Storable ∧ pushed.check = .ok () ∧ ofBytes (pushed.toBytes ++ [0x80]) = .ok pushed ∧
      ofBytes [0x46, 0x45, 0x4c, 0x42, 1, 0, 0x80, 0, 0, 0, 0, 0] = .ok {} ∧
      ({} : Code).toBytes.length ≤ 12 := by
  have hcheck : pushed.check = .ok () := rfl
  have hback := file_round_trip.1 pushed pushed_storable [0x80]
  rw [hcheck] at hback
  have hlong : ofBytes [0x46, 0x45, 0x4c, 0x42, 1, 0, 0x80, 0, 0, 0, 0, 0] = .ok {} := rfl
  exact ⟨pushed_storable, hcheck, hback, hlong, (file_round_trip.2 _ _ hlong).2⟩

/-- Wherever a file breaks off, there is either no head or no end. -/
theorem ofBytes_of_prefix {code : Code} (h : code.Storable) {front : List UInt8}
    (hfront : front <+: code.toBytes) (hne : front ≠ code.toBytes) :
    ofBytes front = .error (if front.length < 6 then .badMagic else .malformed .endOfBytes) := by
  obtain ⟨missing, happend⟩ := hfront
  refine ofBytes_of_cut h happend ?_
  rintro rfl
  exact hne (by rw [← happend, List.append_nil])

/-- The file breaks off within the bytes of a number. -/
theorem ofBytes_of_prefix_pushed :
    let front := pushed.toBytes.take 25
    pushed.Storable ∧ front <+: pushed.toBytes ∧ front ≠ pushed.toBytes ∧
      ofBytes front = .error (.malformed .endOfBytes) := by
  intro front
  have hlength : pushed.toBytes.length = 43 := by cbv
  have hshort : front.length = 25 := by
    rw [List.length_take, hlength]
    rfl
  have hfront : front <+: pushed.toBytes := List.take_prefix 25 _
  have hne : front ≠ pushed.toBytes := by
    intro heq
    rw [heq, hlength] at hshort
    omega
  have hbroken := ofBytes_of_prefix pushed_storable hfront hne
  rw [if_neg (by omega)] at hbroken
  exact ⟨pushed_storable, hfront, hne, hbroken⟩

end Code

end StackScript
