import StackScript.Proofs.Grammar.Acceptance
import StackScript.Proofs.Token.Words
import StackScript.Proofs.Tree.Constants

/-!
The constants of a tree that comes from a text are those that its words spell, and
no word spells a function.
-/

namespace StackScript

namespace Grammar

theorem constant?_ne_function {t : Token} {v : Value} (ht : t.Proper) (h : constant? t = some v)
    (entry : UInt32) : v ≠ .function entry := by
  unfold constant? at h
  split at h
  · cases h
    simp
  · cases h
    simp
  · cases h
    simp
  · exact (ht.literal v h).ne_function entry
  · exact (ht.literal v h).ne_function entry
  · exact (ht.literal v h).ne_function entry
  · cases h

def Phrase.AddressFree : Phrase → Prop
  | statement s => s.AddressFree
  | statements ss => EachAddressFree ss
  | expression e | operand _ e | callable e => e.AddressFree
  | arguments es | series es => AllAddressFree es

theorem allAddressFree_append {es es' : List Expr} :
    AllAddressFree (es ++ es') ↔ AllAddressFree es ∧ AllAddressFree es' := by
  induction es with
  | nil => simp [AllAddressFree]
  | cons e es ih => simp [AllAddressFree, ih, and_assoc]

theorem Derives.addressFree {n : Nat} {ts : List Token} {p : Phrase} (h : Derives n ts p)
    (hts : ∀ t ∈ ts, t.Proper) : p.AddressFree := by
  induction h with
  | constant ht =>
    exact constant?_ne_function (hts _ (List.mem_singleton_self _)) ht
  | @connected _ c _ _ _ _ _ _ _ _ ihl ihr =>
    have hleft := ihl fun t ht => hts t (List.mem_append_left _ ht)
    have hright := ihr fun t ht => hts t (List.mem_append_right _ (List.mem_cons_of_mem _ ht))
    obtain op | op := c <;> exact ⟨hleft, hright⟩
  | more _ _ _ ihb ihl =>
    have hbefore := ihb fun t ht => hts t (List.mem_append_left _ ht)
    have hlast := ihl fun t ht => hts t (List.mem_append_right _ (List.mem_cons_of_mem _ ht))
    exact allAddressFree_append.2 ⟨hbefore, hlast, trivial⟩
  | _ => simp_all [Phrase.AddressFree, Expr.AddressFree, Stmt.AddressFree, AllAddressFree,
      EachAddressFree, or_imp, forall_and]

end Grammar

theorem Script.read_addressFree {file text : String} {script : Script}
    (h : (Script.read file text).result = some script) : EachAddressFree script.statements := by
  have hended := TokenStream.ended_ofText file text
  obtain ⟨-, hderives, -⟩ := (Script.ofTokens_eq_some_iff hended script).1 h
  refine hderives.addressFree fun t ht => ?_
  obtain ⟨scanned, hscanned, rfl⟩ := List.mem_map.1 ht
  exact TokenStream.ofText_proper file text scanned hscanned

end StackScript
