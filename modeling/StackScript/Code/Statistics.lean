import StackScript.Code.Listing
import StackScript.Text.Percent

/-!
How often each instruction occurs, the most frequent first and equally frequent
ones by name.
-/

namespace StackScript

namespace Code

/-- The opcodes that occur, with their numbers. -/
def frequencies (code : Code) : List (Opcode × Nat) :=
  let counts := code.instructions.foldl (fun (counts : Array Nat) c =>
    counts.modify c.opcode.code (· + 1)) (Array.replicate Opcode.all.length 0)
  (Opcode.all.map fun op => (op, counts.getD op.code 0)).filter fun p => 0 < p.2

/-- Whether one frequency is listed before another. -/
def isMoreFrequent (a b : Opcode × Nat) : Bool :=
  b.2 < a.2 || (a.2 == b.2 && decide (a.1.mnemonic ≤ b.1.mnemonic))

def frequencyLine (total : Nat) (frequency : Opcode × Nat) : String :=
  "  " ++ Text.alignLeft 14 frequency.1.mnemonic ++ " " ++
    Text.alignRight 4 (toString frequency.2) ++ " (" ++
    Text.alignRight 5 (Text.percent frequency.2 (max total 1)) ++ "%)\n"

/-- Counts of instructions and functions, and the ten most frequent instructions. -/
def statistics (code : Code) : String :=
  "=== BYTECODE STATISTICS ===\n\nInstructions:     " ++ toString code.size ++
    "\nFunctions:        " ++ toString code.functionCount ++ "\n\nOp frequency:\n" ++
    String.join (((code.frequencies.mergeSort isMoreFrequent).take 10).map
      (frequencyLine code.size))

end Code

end StackScript
