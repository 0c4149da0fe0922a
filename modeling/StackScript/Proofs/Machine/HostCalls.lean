import StackScript.Proofs.Machine.Effects

/-!
Calls of host functions. A host is handed the whole stack. Its arguments lie between what
the caller has below them and the callee, the first of them lowest. Whatever the host does
above what the caller has, and however many values it tells of, the caller gets its stack
back with one value more if it wants one.
-/

namespace StackScript

variable {σ : Type}

namespace HostCall

variable (below arguments pushed : Array Value)

/-- A host that has only pushed finds its arguments where they were. -/
theorem arguments_of_pushed :
    (HostCall.mk (below ++ arguments ++ pushed) below.size arguments.size).arguments =
      arguments.toList := by
  unfold HostCall.arguments
  rw [← Array.size_append, Array.append_assoc]
  simp

theorem argument?_of_pushed (i : Nat) :
    (HostCall.mk (below ++ arguments ++ pushed) below.size arguments.size).argument? i =
      arguments[i]? := by
  unfold argument?
  dsimp only
  by_cases hi : i < arguments.size
  · rw [if_pos hi, Array.append_assoc, Array.getElem?_append_right (Nat.le_add_right _ _),
      Nat.add_sub_cancel_left, Array.getElem?_append_left hi]
  · rw [if_neg hi, Array.getElem?_eq_none (Nat.le_of_not_lt hi)]

end HostCall

namespace Machine

variable {s : Setting σ} {m : Machine σ} {below arguments : Array Value} {name : String}
  {f : HostFunction σ} {n : Operand}

/-- What a call comes to where the host has a function of that name. -/
theorem execute_call (hstack : m.stack = (below ++ arguments).push (.string name))
    (hn : arguments.size = n.val) (hf : s.hosts.find? name = some f) (wantsValue : Bool) :
    execute s m ⟨callOpcode wantsValue, n⟩ =
      let reply := f ⟨below ++ arguments, below.size, arguments.size⟩ m.host
      goOn { m with
        stack := settleReply reply below.size arguments.size wantsValue
        host := reply.state } := by
  have hcall : execute s m ⟨callOpcode wantsValue, n⟩ = call s m n.val wantsValue := by
    cases wantsValue <;> rfl
  have hbase : (below ++ arguments).size - n.val = below.size := by
    rw [Array.size_append, hn, Nat.add_sub_cancel]
  have henough : ¬(below ++ arguments).size < n.val := by
    rw [Array.size_append]
    omega
  rw [hcall, call, withTop_push _ hstack]
  simp only [if_neg henough, hbase, hf, hn]

/-- The host finds as its arguments the values below the callee, in their order, also after
it has pushed others. Where it leaves what lies below them alone, the stack behind the call
is what lies below and the one value that is wanted, if one is. Where it has only pushed,
that is the last value it has pushed, if there is one and it tells of any. -/
theorem execute_call_settled (s : Setting σ) (m : Machine σ) (n : Operand) (wantsValue : Bool)
    (hstack : m.stack = (below ++ arguments).push (.string name))
    (hn : arguments.size = n.val) (hf : s.hosts.find? name = some f) :
    let call : HostCall := ⟨below ++ arguments, below.size, n.val⟩
    let reply := f call m.host
    (∀ pushed, { call with stack := call.stack ++ pushed }.arguments = arguments.toList ∧
      ∀ i, { call with stack := call.stack ++ pushed }.argument? i = arguments[i]? ∧
        (({ call with stack := call.stack ++ pushed }.argument? i).isSome ↔ i < n.val)) ∧
    ∀ above, reply.stack = below ++ above → ∃ v,
      execute s m ⟨callOpcode wantsValue, n⟩ = .next { m with
        pc := m.pc + 1
        stack := if wantsValue then below.push v else below
        host := reply.state } ∧
      ∀ pushed, above = arguments ++ pushed →
        v = if 0 < reply.pushed then pushed.back?.getD .null else .null := by
  intro call reply
  have hcall : call = ⟨below ++ arguments, below.size, arguments.size⟩ := by rw [hn]
  refine ⟨fun pushed => ⟨?_, fun i => ?_⟩, fun above habove => ?_⟩
  · rw [hcall]
    exact HostCall.arguments_of_pushed below arguments pushed
  · have hargument : { call with stack := call.stack ++ pushed }.argument? i = arguments[i]? := by
      rw [hcall]
      exact HostCall.argument?_of_pushed below arguments pushed i
    rw [hargument]
    exact ⟨rfl, by rw [← hn]; simp⟩
  · refine ⟨settledValue reply arguments.size above, ?_, ?_⟩
    · rw [execute_call hstack hn hf, ← hcall]
      dsimp only
      rw [settleReply_above habove]
      rfl
    · rintro pushed rfl
      exact settledValue_append reply arguments pushed

/-- A host that pushes two values and tells of one, and a host that takes an argument away,
pushes nothing and tells of one. -/
theorem execute_call_settled_twice :
    let two : Operand := ⟨2, by decide⟩
    let m : Machine Unit := { stack := #[.int 7, .int 1, .int 2, .string "f"], host := () }
    let pushes : Setting Unit :=
      { code := {}, hosts := ⟨[("f", fun call _ =>
          ⟨(call.stack.push (.bool true)).push (.int 3), 1, ()⟩)]⟩ }
    let takes : Setting Unit :=
      { code := {}, hosts := ⟨[("f", fun call _ => ⟨call.stack.pop, 1, ()⟩)]⟩ }
    execute pushes m ⟨.callReturn, two⟩ = .next { m with pc := 1, stack := #[.int 7, .int 3] } ∧
      execute takes m ⟨.callDiscard, two⟩ = .next { m with pc := 1, stack := #[.int 7] } := by
  intro two m pushes takes
  have hstack : m.stack = (#[Value.int 7] ++ #[Value.int 1, .int 2]).push (.string "f") := rfl
  have hpushes := (execute_call_settled pushes m two true hstack rfl rfl).2
    #[.int 1, .int 2, .bool true, .int 3] rfl
  have htakes := (execute_call_settled takes m two false hstack rfl rfl).2 #[.int 1] rfl
  obtain ⟨v, hsettled, hlast⟩ := hpushes
  obtain ⟨_, hdiscarded, -⟩ := htakes
  obtain rfl : v = .int 3 := hlast #[.bool true, .int 3] rfl
  exact ⟨hsettled, hdiscarded⟩

end Machine

end StackScript
