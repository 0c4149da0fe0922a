import StackScript.Operator.Apply
import StackScript.Proofs.Single.Nearest

/-!
Comparison of values. An ordering is a test of numbers, and swapping the operands of the test
swaps those of the operator. Two ints are compared as integers, whatever their nearest numbers
are; an int beside a number is compared as its nearest number. Main statement: the six operators
agree with one another on all values, on ints they follow the order of the integers, and beside a
number the order of the extended real line.
-/

namespace StackScript

namespace BinaryOp

def orderings : List BinaryOp := [less, lessEqual, greater, greaterEqual]

/-- The ordering that says the same of the operands the other way round. -/
def swapped : BinaryOp → BinaryOp
  | less => greater
  | lessEqual => greaterEqual
  | greater => less
  | greaterEqual => lessEqual
  | op => op

/-- The test of numbers that an ordering applies. -/
def test : BinaryOp → Single → Single → Bool
  | less => Single.less
  | lessEqual => Single.lessEqual
  | greater => fun x y => y.less x
  | greaterEqual => fun x y => y.lessEqual x
  | _ => fun _ _ => false

/-- The operator that is true of two ints in the given order. -/
def ofOrder : Ordering → BinaryOp
  | .lt => less
  | .eq => equal
  | .gt => greater

/-- What an ordering says of two elements of an order. -/
def Orders {α : Type*} [LT α] [LE α] (op : BinaryOp) (p q : α) : Prop :=
  match op with
  | less => p < q
  | lessEqual => p ≤ q
  | greater => q < p
  | greaterEqual => q ≤ p
  | _ => False

/-- A bool that tells whether something holds. -/
def Answers (result : Except OperandFault Value) (p : Prop) : Prop :=
  ∃ b, result = .ok (.bool b) ∧ (b = true ↔ p)

variable {op : BinaryOp}

theorem orderings_cases (h : op ∈ orderings) :
    op = less ∨ op = lessEqual ∨ op = greater ∨ op = greaterEqual := by
  simpa [orderings] using h

theorem Answers.eq_true_iff {result : Except OperandFault Value} {p : Prop}
    (h : Answers result p) : result = .ok (.bool true) ↔ p := by
  obtain ⟨b, rfl, hb⟩ := h
  rw [← hb, Except.ok.injEq, Value.bool.injEq]

section Values

variable (a b : Value)

theorem apply_ordering (h : op ∈ orderings) : op.apply a b =
    if a.isNull || b.isNull then .error .onNull else comparison op.test a b := by
  rcases orderings_cases h with rfl | rfl | rfl | rfl <;> rfl

theorem swapped_mem (h : op ∈ orderings) : op.swapped ∈ orderings := by
  rcases orderings_cases h with rfl | rfl | rfl | rfl <;> decide

theorem test_swapped (h : op ∈ orderings) : op.swapped.test = fun x y => op.test y x := by
  rcases orderings_cases h with rfl | rfl | rfl | rfl <;> rfl

theorem onOrder_swap (test : Single → Single → Bool) (o : Ordering) :
    onOrder (fun x y => test y x) o.swap = onOrder test o := by
  cases o <;> rfl

theorem comparison_swap (test : Single → Single → Bool) :
    comparison (fun x y => test y x) b a = comparison test a b := by
  cases a with
  | int x =>
    cases b with
    | int y =>
      change Except.ok (Value.bool (onOrder (fun x y => test y x) (compare y x))) =
        .ok (.bool (onOrder test (compare x y)))
      have hswap : compare y x = (compare x y).swap := Std.OrientedCmp.eq_swap
      rw [hswap, onOrder_swap]
    | _ => rfl
  | _ => cases b <;> rfl

theorem apply_swapped (h : op ∈ orderings) : op.apply a b = op.swapped.apply b a := by
  rw [apply_ordering a b h, apply_ordering b a (swapped_mem h), Bool.or_comm, test_swapped h,
    comparison_swap]

theorem equality_comm : equality a b = equality b a := by
  cases a with
  | bool x =>
    cases b with
    | bool y => exact congrArg Except.ok BEq.comm
    | _ => rfl
  | int x =>
    cases b with
    | int y => exact congrArg Except.ok BEq.comm
    | _ => rfl
  | _ => cases b <;> rfl

theorem apply_equal_comm : apply equal a b = apply equal b a :=
  congrArg (Except.map Value.bool) (equality_comm a b)

theorem apply_notEqual :
    apply notEqual a b = (apply equal a b).bind (UnaryOp.apply .not) := by
  change (equality a b).map (fun same => Value.bool !same) =
    ((equality a b).map Value.bool).bind (UnaryOp.apply .not)
  cases equality a b <;> rfl

end Values

section Ints

variable (x y : Int32)

theorem apply_ordering_ints (h : op ∈ orderings) :
    op.apply (.int x) (.int y) = .ok (.bool (onOrder op.test (compare x y))) :=
  apply_ordering (.int x) (.int y) h

/-- Zero and one are ordered as the values that stand behind them. -/
theorem onOrder_test_iff (h : op ∈ orderings) :
    onOrder op.test (compare x y) = true ↔ op.Orders x.toInt y.toInt := by
  have hle : (compare x y).isLE = true ↔ x.toInt ≤ y.toInt :=
    Std.isLE_compare.trans Int32.le_iff_toInt_le
  have hge : (compare x y).isGE = true ↔ y.toInt ≤ x.toInt :=
    Std.isGE_compare.trans Int32.le_iff_toInt_le
  rcases orderings_cases h with rfl | rfl | rfl | rfl
  · change _ ↔ x.toInt < y.toInt
    rw [← not_le, ← hge]
    cases compare x y <;> decide
  · change _ ↔ x.toInt ≤ y.toInt
    rw [← hle]
    cases compare x y <;> decide
  · change _ ↔ y.toInt < x.toInt
    rw [← not_le, ← hle]
    cases compare x y <;> decide
  · change _ ↔ y.toInt ≤ x.toInt
    rw [← hge]
    cases compare x y <;> decide

theorem ordering_answers_ints (h : op ∈ orderings) :
    Answers (op.apply (.int x) (.int y)) (op.Orders x.toInt y.toInt) :=
  ⟨_, apply_ordering_ints x y h, onOrder_test_iff x y h⟩

theorem equal_answers_ints : Answers (apply equal (.int x) (.int y)) (x.toInt = y.toInt) :=
  ⟨x == y, rfl, beq_iff_eq.trans Int32.toInt_inj.symm⟩

/-- Of the three the one that belongs to the order of the ints is true. -/
theorem apply_eq_true_iff (h : op ∈ [less, equal, greater]) :
    op.apply (.int x) (.int y) = .ok (.bool true) ↔ op = ofOrder (compare x y) := by
  simp only [List.mem_cons, List.not_mem_nil, or_false] at h
  rcases h with rfl | rfl | rfl
  · rw [apply_ordering_ints x y (by decide), Except.ok.injEq, Value.bool.injEq]
    cases compare x y <;> decide
  · change Except.ok (Value.bool (x == y)) = .ok (.bool true) ↔ _
    rw [Except.ok.injEq, Value.bool.injEq, beq_iff_eq, ← Std.LawfulEqOrd.compare_eq_iff_eq]
    cases compare x y <;> decide
  · rw [apply_ordering_ints x y (by decide), Except.ok.injEq, Value.bool.injEq]
    cases compare x y <;> decide

theorem existsUnique_ints : ∃! op, op ∈ [less, equal, greater] ∧
    op.apply (.int x) (.int y) = .ok (.bool true) := by
  have hmem : ofOrder (compare x y) ∈ [less, equal, greater] := by
    cases compare x y <;> decide
  refine ⟨ofOrder (compare x y), ⟨hmem, (apply_eq_true_iff x y hmem).2 rfl⟩, ?_⟩
  rintro op ⟨hop, htrue⟩
  exact (apply_eq_true_iff x y hop).1 htrue

theorem lessEqual_ints : apply lessEqual (.int x) (.int y) =
    (apply greater (.int x) (.int y)).bind (UnaryOp.apply .not) := by
  rw [apply_ordering_ints x y (by decide), apply_ordering_ints x y (by decide)]
  cases compare x y <;> rfl

theorem greaterEqual_ints : apply greaterEqual (.int x) (.int y) =
    (apply less (.int x) (.int y)).bind (UnaryOp.apply .not) := by
  rw [apply_ordering_ints x y (by decide), apply_ordering_ints x y (by decide)]
  cases compare x y <;> rfl

end Ints

section Numbers

open Single

variable {p q : Single}

/-- A test of numbers is one of the extended real line, and a NaN passes none. -/
theorem test_iff (h : op ∈ orderings) : op.test p q = true ↔
    (p.isNaN = false ∧ q.isNaN = false) ∧ op.Orders p.value q.value := by
  rcases orderings_cases h with rfl | rfl | rfl | rfl
  · exact less_iff.trans and_assoc.symm
  · exact lessEqual_iff.trans and_assoc.symm
  · exact less_iff.trans (and_assoc.symm.trans (and_congr_left' and_comm))
  · exact lessEqual_iff.trans (and_assoc.symm.trans (and_congr_left' and_comm))

/-- An int beside a number is its nearest number. -/
theorem ordering_answers_mixed (h : op ∈ orderings) (i : Int32) (x : Single) :
    Answers (op.apply (.int i) (.number x))
        (x.isNaN = false ∧ op.Orders (ofInt i.toInt).value x.value) ∧
      Answers (op.apply (.number x) (.int i))
        (x.isNaN = false ∧ op.Orders x.value (ofInt i.toInt).value) := by
  have hnumber := (ofInt_isNearest i).isNaN_eq_false
  refine ⟨⟨op.test (ofInt i.toInt) x, ?_, ?_⟩, ⟨op.test x (ofInt i.toInt), ?_, ?_⟩⟩
  · exact apply_ordering (.int i) (.number x) h
  · rw [test_iff h, hnumber]
    simp
  · exact apply_ordering (.number x) (.int i) h
  · rw [test_iff h, hnumber]
    simp

end Numbers

/-- The comparisons agree with one another, and with the orders of what is compared. -/
theorem comparisons_agree :
    (∀ a b, apply less a b = apply greater b a ∧ apply lessEqual a b = apply greaterEqual b a ∧
      apply equal a b = apply equal b a ∧
      apply notEqual a b = (apply equal a b).bind (UnaryOp.apply .not)) ∧
    (∀ x y : Int32,
      (∃! op, op ∈ [less, equal, greater] ∧ op.apply (.int x) (.int y) = .ok (.bool true)) ∧
      apply lessEqual (.int x) (.int y) =
        (apply greater (.int x) (.int y)).bind (UnaryOp.apply .not) ∧
      apply greaterEqual (.int x) (.int y) =
        (apply less (.int x) (.int y)).bind (UnaryOp.apply .not) ∧
      Answers (apply equal (.int x) (.int y)) (x.toInt = y.toInt) ∧
      ∀ op ∈ orderings, Answers (op.apply (.int x) (.int y)) (op.Orders x.toInt y.toInt)) ∧
    (∀ x y z : Int32, apply less (.int x) (.int y) = .ok (.bool true) →
      apply less (.int y) (.int z) = .ok (.bool true) →
      apply less (.int x) (.int z) = .ok (.bool true)) ∧
    ∀ (i : Int32) (x : Single), (Single.ofInt i.toInt).IsNearest i.toInt ∧
      ∀ op ∈ orderings,
        Answers (op.apply (.int i) (.number x))
          (x.isNaN = false ∧ op.Orders (Single.ofInt i.toInt).value x.value) ∧
        Answers (op.apply (.number x) (.int i))
          (x.isNaN = false ∧ op.Orders x.value (Single.ofInt i.toInt).value) := by
  refine ⟨fun a b => ⟨?_, ?_, apply_equal_comm a b, apply_notEqual a b⟩, fun x y => ?_,
    fun x y z hxy hyz => ?_, fun i x => ⟨Single.ofInt_isNearest i, fun op h => ?_⟩⟩
  · exact apply_swapped a b (by decide)
  · exact apply_swapped a b (by decide)
  · exact ⟨existsUnique_ints x y, lessEqual_ints x y, greaterEqual_ints x y,
      equal_answers_ints x y, fun op => ordering_answers_ints x y⟩
  · have hless (x y : Int32) :
        apply less (.int x) (.int y) = .ok (.bool true) ↔ x.toInt < y.toInt :=
      (ordering_answers_ints x y (by decide)).eq_true_iff
    exact (hless x z).2 (lt_trans ((hless x y).1 hxy) ((hless y z).1 hyz))
  · exact ordering_answers_mixed h i x

/-- Three ints next to one another, of which the first two have the same nearest number, and a
NaN. -/
theorem comparisons_agree_large :
    apply less (.int 16777216) (.int 16777218) = .ok (.bool true) ∧
    Answers (apply lessEqual (.int 16777217) (.number ⟨0x4b800000⟩))
      (Single.isNaN ⟨0x4b800000⟩ = false ∧
        (Single.ofInt 16777217).value ≤ Single.value ⟨0x4b800000⟩) ∧
    apply greater (.number .nan) (.int 16777217) = .ok (.bool false) := by
  obtain ⟨-, -, htrans, hmixed⟩ := comparisons_agree
  refine ⟨htrans 16777216 16777217 16777218 rfl rfl, ?_, ?_⟩
  · exact ((hmixed 16777217 ⟨0x4b800000⟩).2 lessEqual (by decide)).1
  · obtain ⟨b, hresult, hb⟩ := ((hmixed 16777217 .nan).2 greater (by decide)).2
    have hfalse : b = false := Bool.eq_false_iff.2 fun htrue => by
      have hnan := (hb.1 htrue).1
      revert hnan
      decide
    rw [hresult, hfalse]

end BinaryOp

end StackScript
