import StackScript.Proofs.Bytes.Reading

/-!
How many bytes a reader takes. The writers spend as few bytes on a value as any bytes that
are read as this value, though there may be other such bytes: a varint may be longer than it
has to be. And what is read fits: no length of it is too great to be written again.
-/

namespace StackScript.Bytes.Reader

variable {α β : Type} {r : Reader α} {taken : List UInt8}

/-- Whatever is read is as `P` says, and takes no fewer bytes than writing it takes. -/
def Covers (r : Reader α) (write : α → List UInt8) (P : α → Prop) : Prop :=
  ∀ taken a rest, r taken = .ok (a, rest) → P a ∧ (write a).length + rest.length ≤ taken.length

variable {write : α → List UInt8} {P : α → Prop}

theorem Covers.map {write' : β → List UInt8} {Q : β → Prop} {make : α → β}
    (h : r.Covers write P) (hmake : ∀ a, P a → Q (make a) ∧ write' (make a) = write a) :
    (r >>= fun a => Pure.pure (make a)).Covers write' Q := by
  intro taken b rest hread
  obtain ⟨a, between, ha, hb⟩ := bind_eq_ok hread
  cases hb
  obtain ⟨hP, hlength⟩ := h taken a rest ha
  obtain ⟨hQ, hwrite⟩ := hmake a hP
  exact ⟨hQ, hwrite ▸ hlength⟩

theorem byte_eq_ok {b : UInt8} {rest : List UInt8} (h : Reader.byte taken = .ok (b, rest)) :
    taken = b :: rest := by
  cases taken with
  | nil => cases h
  | cons => cases h; rfl

theorem length_varint_le {digit : Nat} (hdigit : digit < 128) (n : Nat) :
    (Bytes.varint (digit + 128 * n)).length ≤ (Bytes.varint n).length + 1 := by
  rw [Bytes.varint]
  split
  · simp
  · have hdiv : (digit + 128 * n) / 128 = n := by omega
    rw [hdiv]
    exact Nat.le_refl _

theorem covers_varint (last more : Nat) :
    (Reader.varint last (more + 1)).Covers Bytes.varint fun n => n < (last + 1) * 128 ^ more := by
  induction more with
  | zero =>
    intro taken n rest h
    rw [varint_succ] at h
    obtain ⟨b, between, hb, h⟩ := bind_eq_ok h
    split at h
    · split at h
      · cases h
      · cases h
        rw [byte_eq_ok hb, Bytes.varint, if_pos ‹_›, Nat.pow_zero]
        exact ⟨by omega, Nat.le_of_eq (Nat.add_comm ..)⟩
    · obtain ⟨_, _, hnone, -⟩ := bind_eq_ok h
      cases hnone
  | succ more ih =>
    intro taken n rest h
    have hpos : 0 < (last + 1) * 128 ^ more :=
      Nat.mul_pos (Nat.succ_pos last) (Nat.pow_pos (by decide))
    rw [Nat.pow_succ, ← Nat.mul_assoc]
    rw [varint_succ] at h
    obtain ⟨b, between, hb, h⟩ := bind_eq_ok h
    rw [byte_eq_ok hb]
    split at h
    · split at h
      · cases h
      · cases h
        rw [Bytes.varint, if_pos ‹_›]
        exact ⟨by omega, Nat.le_of_eq (Nat.add_comm ..)⟩
    · obtain ⟨m, _, hm, h⟩ := bind_eq_ok h
      cases h
      have hbyte := b.toNat_lt
      obtain ⟨hlt, hlength⟩ := ih between m rest hm
      have hle := length_varint_le (by omega : b.toNat - 128 < 128) m
      rw [List.length_cons]
      omega

theorem covers_length : length.Covers Bytes.varint (· < lengthLimit) := covers_varint 1 9

theorem covers_word : word.Covers ofWord fun _ => True := by
  refine (covers_varint 15 4).map fun n hn => ⟨trivial, ?_⟩
  rw [ofWord, UInt32.toNat_ofNat_of_lt' hn]

theorem zigzag_unzigzag (n : Nat) : zigzag (unzigzag n) = n := by
  unfold zigzag unzigzag
  split <;> split <;> omega

theorem covers_int : int.Covers ofInt fun _ => True := by
  refine (covers_varint 15 4).map fun n hn => ⟨trivial, ?_⟩
  have hrange : (Int32.ofInt (unzigzag n)).toInt = unzigzag n := by
    refine Int32.toInt_ofInt_of_le ?_ ?_ <;> unfold unzigzag <;> split <;> omega
  rw [ofInt, hrange, zigzag_unzigzag]

theorem covers_single : single.Covers ofSingle fun _ => True := by
  intro taken x rest h
  obtain ⟨b₀, _, h₀, h⟩ := bind_eq_ok h
  obtain ⟨b₁, _, h₁, h⟩ := bind_eq_ok h
  obtain ⟨b₂, _, h₂, h⟩ := bind_eq_ok h
  obtain ⟨b₃, _, h₃, h⟩ := bind_eq_ok h
  cases h
  rw [byte_eq_ok h₀, byte_eq_ok h₁, byte_eq_ok h₂, byte_eq_ok h₃]
  exact ⟨trivial, Nat.le_of_eq (Nat.add_comm ..)⟩

theorem bytes_eq_ok {n : Nat} {chunk rest : List UInt8}
    (h : Reader.bytes n taken = .ok (chunk, rest)) : chunk.length = n ∧ taken = chunk ++ rest := by
  unfold Reader.bytes at h
  split at h
  · cases h
    exact ⟨‹_›, (List.take_append_drop n taken).symm⟩
  · cases h

theorem toByteArray_of_fromUTF8? {bs : ByteArray} {s : String}
    (h : String.fromUTF8? bs = some s) : s.toByteArray = bs := by
  unfold String.fromUTF8? at h
  split at h
  · cases h
    rfl
  · cases h

theorem covers_text : text.Covers ofText TextFits := by
  intro taken s rest h
  obtain ⟨n, between, hn, hrest⟩ := bind_eq_ok h
  obtain ⟨chunk, left, hchunk, hmade⟩ := bind_eq_ok hrest
  obtain ⟨hlt, hlength⟩ := covers_length taken n between hn
  obtain ⟨rfl, rfl⟩ := bytes_eq_ok hchunk
  cases hs : String.fromUTF8? ⟨chunk.toArray⟩ with
  | none =>
    rw [hs] at hmade
    cases hmade
  | some made =>
    rw [hs] at hmade
    cases hmade
    have hbytes := toByteArray_of_fromUTF8? hs
    have hsize : s.utf8ByteSize = chunk.length := by
      rw [String.utf8ByteSize, hbytes]
      rfl
    have hchars : s.toUTF8.toList = chunk := by
      rw [toList_toUTF8, hbytes]
    refine ⟨by rw [TextFits, hsize]; exact hlt, ?_⟩
    rw [List.length_append] at hlength
    rw [ofText, hsize, hchars, List.length_append]
    omega

theorem many_eq_ok (h : r.Covers write P) (before : Array α) (n : Nat) {xs : Array α}
    {rest : List UInt8} (hread : many r before n taken = .ok (xs, rest)) :
    ∃ more : List α, xs = before ++ more.toArray ∧ more.length = n ∧ (∀ x ∈ more, P x) ∧
      (more.flatMap write).length + rest.length ≤ taken.length := by
  induction n generalizing before taken with
  | zero =>
    cases hread
    exact ⟨[], by simp⟩
  | succ n ih =>
    obtain ⟨x, between, hx, hread⟩ := bind_eq_ok (r := r) hread
    obtain ⟨hP, hlength⟩ := h taken x between hx
    obtain ⟨more, rfl, hmore, hall, hmany⟩ := ih (before.push x) hread
    refine ⟨x :: more, by simp, by simp [hmore], ?_, ?_⟩
    · exact List.forall_mem_cons.2 ⟨hP, hall⟩
    · rw [List.flatMap_cons, List.length_append]
      omega

theorem Covers.array (h : r.Covers write P) {xs : Array α} {rest : List UInt8}
    (hread : Reader.array r taken = .ok (xs, rest)) :
    ListFits P xs.toList ∧ (ofList write xs.toList).length + rest.length ≤ taken.length := by
  obtain ⟨n, between, hn, hread⟩ := bind_eq_ok hread
  obtain ⟨hlt, hcount⟩ := covers_length taken n between hn
  obtain ⟨more, hxs, rfl, hall, hmany⟩ := many_eq_ok h #[] n hread
  rw [Array.empty_append] at hxs
  subst hxs
  refine ⟨⟨hlt, hall⟩, ?_⟩
  change (Bytes.varint more.length ++ more.flatMap write).length + _ ≤ _
  rw [List.length_append]
  omega

theorem covers_position : position.Covers ofPosition PositionFits := by
  intro taken p rest h
  obtain ⟨file, _, hfile, h⟩ := bind_eq_ok h
  obtain ⟨line, _, hline, h⟩ := bind_eq_ok h
  obtain ⟨column, _, hcolumn, h⟩ := bind_eq_ok h
  cases h
  obtain ⟨hfits, hlength⟩ := covers_text _ _ _ hfile
  obtain ⟨-, hlineLength⟩ := covers_word _ _ _ hline
  obtain ⟨-, hcolumnLength⟩ := covers_word _ _ _ hcolumn
  refine ⟨hfits, ?_⟩
  simp only [ofPosition, List.length_append]
  omega

end StackScript.Bytes.Reader
