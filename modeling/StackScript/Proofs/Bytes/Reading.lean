import Mathlib
import StackScript.Bytes.Reader
import StackScript.Bytes.Writer

/-!
Written data under its readers. Bytes are accepted as a value if a reader takes all of them
and nothing behind them, and wants more wherever they are cut off: no written value is the
beginning of another one. A reader also takes bytes that no writer makes, but never fewer
than the writer needs for the same value.
-/

namespace StackScript.Bytes

variable {α β : Type}

/-- Lengths are numbers of 64 bits. -/
def lengthLimit : Nat := 0x10000000000000000

def TextFits (s : String) : Prop := s.utf8ByteSize < lengthLimit

def PositionFits (p : Position) : Prop := TextFits p.file

def ListFits (P : α → Prop) (xs : List α) : Prop := xs.length < lengthLimit ∧ ∀ x ∈ xs, P x

namespace Reader

variable {r : Reader α} {f : α → Reader β} {taken : List UInt8} {a : α} {b : β}

theorem bind_of_ok {rest : List UInt8} (h : r taken = .ok (a, rest)) :
    (r >>= f) taken = f a rest := by
  change Reader.bind r f taken = _
  rw [Reader.bind, h]

theorem bind_of_error {fault : ReadFault} (h : r taken = .error fault) :
    (r >>= f) taken = .error fault := by
  change Reader.bind r f taken = _
  rw [Reader.bind, h]

theorem bind_eq_ok {rest : List UInt8} (h : (r >>= f) taken = .ok (b, rest)) :
    ∃ a between, r taken = .ok (a, between) ∧ f a between = .ok (b, rest) := by
  cases hr : r taken with
  | ok found => exact ⟨found.1, found.2, rfl, (bind_of_ok (f := f) hr).symm.trans h⟩
  | error fault =>
    rw [bind_of_error hr] at h
    cases h

/-- These bytes are `a` and no others are needed: what stands behind them is left, and
without the last of them the reader wants more. -/
structure Accepts (r : Reader α) (taken : List UInt8) (a : α) : Prop where
  whole : ∀ behind, r (taken ++ behind) = .ok (a, behind)
  cut : ∀ front missing, front ++ missing = taken → missing ≠ [] → r front = .error .endOfBytes

namespace Accepts

theorem pure (a : α) : Accepts (Pure.pure a) [] a where
  whole _ := rfl
  cut _ _ h hne := absurd (List.append_eq_nil_iff.1 h).2 hne

theorem bind {more : List UInt8} (h : r.Accepts taken a) (h' : (f a).Accepts more b) :
    (r >>= f).Accepts (taken ++ more) b where
  whole behind := by
    rw [List.append_assoc, bind_of_ok (h.whole _), h'.whole]
  cut front missing happend hne := by
    rcases List.append_eq_append_iff.1 happend with ⟨gone, rfl, hmissing⟩ | ⟨front', rfl, hmore⟩
    · by_cases hgone : gone = []
      · -- the cut is between the two parts
        subst hgone
        rw [List.nil_append] at hmissing
        have hr := h.whole []
        rw [List.append_nil, List.append_nil] at hr
        rw [bind_of_ok hr]
        exact h'.cut [] missing hmissing hne
      · exact bind_of_error (h.cut front gone rfl hgone)
    · rw [bind_of_ok (h.whole front')]
      exact h'.cut front' missing hmore.symm hne

theorem of_eq {taken' : List UInt8} (h : r.Accepts taken a) (heq : taken' = taken) :
    r.Accepts taken' a := heq ▸ h

/-- Behind the last of several readers there is only a value to be made. -/
theorem ends (h : r.Accepts taken a) (hf : f a = Pure.pure b) : (r >>= f).Accepts taken b :=
  (h.bind (hf ▸ .pure b)).of_eq (List.append_nil taken).symm

theorem byte (b : UInt8) : Reader.byte.Accepts [b] b where
  whole _ := rfl
  cut front missing happend hne := by
    rcases List.append_eq_singleton_iff.1 happend with ⟨rfl, -⟩ | ⟨-, hnil⟩
    · rfl
    · exact absurd hnil hne

theorem head {more : List UInt8} {first : UInt8} {f : UInt8 → Reader β}
    (h : (f first).Accepts more b) : (Reader.byte >>= f).Accepts (first :: more) b :=
  (byte first).bind h

theorem bytes (chunk : List UInt8) : (Reader.bytes chunk.length).Accepts chunk chunk where
  whole behind := by
    unfold Reader.bytes
    rw [List.take_left, List.drop_left, if_pos rfl]
  cut front missing happend hne := by
    have hlength := List.length_pos_iff.2 hne
    subst happend
    unfold Reader.bytes
    rw [if_neg]
    simp only [List.length_take, List.length_append]
    omega

end Accepts

section Numbers

theorem toNat_ofNat {n : Nat} (h : n < 256) : (UInt8.ofNat n).toNat = n := by
  rw [UInt8.toNat_ofNat', Nat.mod_eq_of_lt h]

theorem varint_succ (last more : Nat) :
    Reader.varint last (more + 1) = Reader.byte >>= fun b =>
      if b.toNat < 128 then
        if more = 0 ∧ last < b.toNat then fail .badVarint else Pure.pure b.toNat
      else Reader.varint last more >>= fun n => Pure.pure (b.toNat - 128 + 128 * n) := rfl

/-- With `more + 1` bytes, of which the last is at most `last`. -/
theorem accepts_varint {last : Nat} (hlast : last < 128) (more : Nat) {n : Nat}
    (hn : n < (last + 1) * 128 ^ more) :
    (Reader.varint last (more + 1)).Accepts (Bytes.varint n) n := by
  induction more generalizing n with
  | zero =>
    rw [Nat.pow_zero, Nat.mul_one] at hn
    rw [Bytes.varint, if_pos (by omega), varint_succ]
    apply Accepts.head
    rw [toNat_ofNat (by omega), if_pos (by omega), if_neg (by omega)]
    exact .pure n
  | succ more ih =>
    rw [Bytes.varint, varint_succ]
    split
    · apply Accepts.head
      rw [toNat_ofNat (by omega), if_pos ‹_›, if_neg (by omega)]
      exact .pure n
    · have hdiv : n / 128 < (last + 1) * 128 ^ more := by
        rw [Nat.div_lt_iff_lt_mul (by decide), Nat.mul_assoc, ← Nat.pow_succ]
        exact hn
      have hsum : n % 128 + 128 - 128 + 128 * (n / 128) = n := by omega
      apply Accepts.head
      rw [toNat_ofNat (by omega), if_neg (by omega)]
      exact (ih hdiv).ends (congrArg Pure.pure hsum)

/-- The number of an alternative, and what belongs to this alternative. -/
theorem accepts_tag (n : Nat) (hn : n < 128) {f : Nat → Reader β} {more : List UInt8}
    (h : (f n).Accepts more b) :
    (Reader.varint 15 5 >>= f).Accepts (UInt8.ofNat n :: more) b := by
  have htag := accepts_varint (by decide : 15 < 128) 4 (Nat.lt_of_lt_of_le hn (by decide))
  rw [Bytes.varint, if_pos hn] at htag
  exact htag.bind h

theorem accepts_length {n : Nat} (hn : n < lengthLimit) : length.Accepts (Bytes.varint n) n :=
  accepts_varint (by decide : 1 < 128) 9 hn

theorem accepts_word (w : UInt32) : word.Accepts (ofWord w) w :=
  (accepts_varint (by decide : 15 < 128) 4 w.toNat_lt).ends
    (congrArg Pure.pure UInt32.ofNat_toNat)

theorem zigzag_lt (i : Int32) : zigzag i.toInt < 0x100000000 := by
  have hlow := i.le_toInt
  have hhigh := i.toInt_lt
  unfold zigzag
  split <;> omega

theorem accepts_int (i : Int32) : int.Accepts (ofInt i) i := by
  have hback : Int32.ofInt (unzigzag (zigzag i.toInt)) = i := by
    rw [unzigzag_zigzag, Int32.ofInt_toInt]
  exact (accepts_varint (by decide : 15 < 128) 4 (zigzag_lt i)).ends (congrArg Pure.pure hback)

theorem accepts_single (x : Single) : single.Accepts (ofSingle x) x := by
  have hbits := x.bits.toNat_lt
  have hpattern : x = ⟨UInt32.ofNat ((UInt8.ofNat x.bits.toNat).toNat +
      (UInt8.ofNat (x.bits.toNat / 0x100)).toNat * 0x100 +
      (UInt8.ofNat (x.bits.toNat / 0x10000)).toNat * 0x10000 +
      (UInt8.ofNat (x.bits.toNat / 0x1000000)).toNat * 0x1000000)⟩ := by
    have hsum : x.bits.toNat % 256 + x.bits.toNat / 0x100 % 256 * 0x100 +
        x.bits.toNat / 0x10000 % 256 * 0x10000 +
        x.bits.toNat / 0x1000000 % 256 * 0x1000000 = x.bits.toNat := by omega
    simp only [UInt8.toNat_ofNat', Nat.reducePow, hsum, UInt32.ofNat_toNat]
  unfold single ofSingle
  refine .head (.head (.head (.head ?_)))
  rw [← hpattern]
  exact .pure x

end Numbers

section Sequences

theorem toList_loop (bs : ByteArray) (i : Nat) (before : List UInt8) :
    ByteArray.toList.loop bs i before = before.reverse ++ bs.data.toList.drop i := by
  induction i, before using ByteArray.toList.loop.induct bs with
  | case1 i before h ih =>
    have hi : i < bs.data.toList.length := h
    have hget : bs.get! i = bs.data.toList[i] := getElem!_pos bs.data i h
    rw [ByteArray.toList.loop, if_pos h, ih, List.drop_eq_getElem_cons hi, hget,
      List.reverse_cons, List.append_assoc, List.singleton_append]
  | case2 i before h =>
    have hi : bs.data.toList.length ≤ i := Nat.le_of_not_lt h
    rw [ByteArray.toList.loop, if_neg h, List.drop_eq_nil_of_le hi, List.append_nil]

theorem toList_toUTF8 (s : String) : s.toUTF8.toList = s.toByteArray.data.toList :=
  toList_loop s.toByteArray 0 []

theorem accepts_text {s : String} (h : TextFits s) : text.Accepts (ofText s) s := by
  have hchars := toList_toUTF8 s
  have hsize : s.toUTF8.toList.length = s.utf8ByteSize := by
    rw [hchars, Array.length_toList]
    rfl
  have hchunk : (Reader.bytes s.utf8ByteSize).Accepts s.toUTF8.toList s.toUTF8.toList :=
    hsize ▸ .bytes _
  refine (accepts_length h).bind (hchunk.ends ?_)
  have hback : String.fromUTF8? ⟨s.toUTF8.toList.toArray⟩ = some s := by
    rw [hchars]
    exact dif_pos s.isValidUTF8
  rw [hback]

variable {write : α → List UInt8} {P : α → Prop}

theorem accepts_many {xs : List α} (h : ∀ x ∈ xs, r.Accepts (write x) x) (before : Array α) :
    (many r before xs.length).Accepts (xs.flatMap write) (before ++ xs.toArray) := by
  induction xs generalizing before with
  | nil =>
    rw [Array.append_empty]
    exact .pure before
  | cons x xs ih =>
    obtain ⟨hx, hxs⟩ := List.forall_mem_cons.1 h
    have hmore := ih hxs (before.push x)
    have hpush : before.push x ++ xs.toArray = before ++ (x :: xs).toArray := by simp
    rw [hpush] at hmore
    exact hx.bind hmore

theorem accepts_array (xs : Array α) (hfits : ListFits P xs.toList)
    (h : ∀ x, P x → r.Accepts (write x) x) : (array r).Accepts (ofList write xs.toList) xs := by
  have hmany := accepts_many (fun x hx => h x (hfits.2 x hx)) #[]
  rw [Array.empty_append, Array.toArray_toList] at hmany
  exact (accepts_length hfits.1).bind hmany

theorem accepts_option (h : ∀ a, r.Accepts (write a) a) (x : Option α) :
    (option r).Accepts (ofOption write x) x := by
  cases x with
  | none => exact .head (.pure none)
  | some a => exact .head ((h a).ends rfl)

end Sequences

theorem accepts_alternative {all : List α} {n : Nat} (hn : n < 128) (h : all[n]? = some a) :
    (alternative all).Accepts (Bytes.varint n) a := by
  refine (accepts_varint (by decide : 15 < 128) 4 (Nat.lt_of_lt_of_le hn (by decide))).ends ?_
  rw [h]

theorem accepts_bool (b : Bool) : bool.Accepts (ofBool b) b := by
  cases b <;> exact .head (.pure _)

theorem accepts_position {p : Position} (h : PositionFits p) :
    position.Accepts (ofPosition p) p := by
  refine Accepts.of_eq ?_ (List.append_assoc ..)
  exact (accepts_text h).bind ((accepts_word p.line).bind ((accepts_word p.column).ends rfl))

end Reader

end StackScript.Bytes
