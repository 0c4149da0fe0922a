import StackScript.Text.Hidden

/-!
Two ways of writing text between double quotes. `quote` shows every character,
by number if it would leave no mark. `escape` is the spelling of a script, where
only the characters that end or break a literal need an escape.
-/

namespace StackScript.Text

def hexDigits (n : Nat) : String := String.ofList (Nat.toDigits 16 n)

/-- One character as it is shown inside quotes. -/
def shown (c : Char) : String :=
  match c with
  | '\x00' => "\\0"
  | '\t' => "\\t"
  | '\r' => "\\r"
  | '\n' => "\\n"
  | '"' => "\\\""
  | '\\' => "\\\\"
  | c => if isHidden c then "\\u\x7b" ++ hexDigits c.toNat ++ "\x7d" else c.toString

def quote (s : String) : String :=
  s.toList.foldl (fun out c => out ++ shown c) "\"" ++ "\""

/-- One character as a script spells it inside a string literal. -/
def spelled (c : Char) : List Char :=
  match c with
  | '\\' => ['\\', '\\']
  | '\n' => ['\\', 'n']
  | '\r' => ['\\', 'r']
  | '\t' => ['\\', 't']
  | '"' => ['\\', '"']
  | c => [c]

def escape (s : String) : String :=
  String.ofList ('"' :: s.toList.flatMap spelled ++ ['"'])

end StackScript.Text
