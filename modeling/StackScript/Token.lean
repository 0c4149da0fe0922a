import StackScript.Token.Kind
import StackScript.Position
import StackScript.Value

/-!
The words of a script, with their places and with what the literals among them stand
for.
-/

namespace StackScript

structure Token where
  kind : TokenKind
  /-- The token as it stands in the script, a string with its quotes. -/
  lexeme : String
  /-- What a string, an int or a number stands for. Digits that do not fit their
  type stand for nothing. -/
  literal : Option Value
  position : Position
  deriving DecidableEq, Inhabited

def Token.text (token : Token) : String :=
  match token.kind with
  | .endOfStream => TokenKind.endOfStream.text
  | _ => token.lexeme

end StackScript
