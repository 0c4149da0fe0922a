import StackScript.Token
import StackScript.Text.Column

/-!
A listing of tokens for a terminal, one to a line: place, group, kind and text.
-/

namespace StackScript

inductive TokenGroup where
  | unknown
  | ending
  | number
  | string
  | identifier
  | brace
  | paren
  | bracket
  | operator
  | comparison
  | punctuation
  | keyword
  deriving DecidableEq, Inhabited

namespace TokenGroup

def label : TokenGroup → String
  | unknown => "UNKNOWN"
  | ending => "EOF"
  | number => "NUMBER"
  | string => "STRING"
  | identifier => "IDENT"
  | brace => "BRACE"
  | paren => "PAREN"
  | bracket => "BRACKET"
  | operator => "OP"
  | comparison => "CMP"
  | punctuation => "PUNCT"
  | keyword => "KEYWORD"

/-- The terminal sequence that returns to plain text. -/
def plain : String := "\x1b[0m"

/-- The terminal sequence that starts the color of a group. -/
def color : TokenGroup → String
  | unknown | ending => "\x1b[2m"
  | string => "\x1b[32m"
  | number => "\x1b[36m"
  | identifier => "\x1b[33m"
  | comparison | operator => "\x1b[35m"
  | keyword => "\x1b[34m"
  | brace | paren | bracket | punctuation => plain

end TokenGroup

def TokenKind.group : TokenKind → TokenGroup
  | unknown => .unknown
  | endOfStream => .ending
  | int | number => .number
  | string => .string
  | identifier => .identifier
  | openBrace | closeBrace => .brace
  | openParen | closeParen => .paren
  | openBracket | closeBracket => .bracket
  | plus | minus | star | slash | percent | not | bitNot | and | or | bitAnd | bitOr => .operator
  | equal | notEqual | less | lessEqual | greater | greaterEqual => .comparison
  | comma | colon | semicolon | dot | dotDot | assign => .punctuation
  | keywordIf | keywordElse | keywordFor | keywordFun | keywordVar | keywordReturn
  | keywordWhile | keywordTrue | keywordFalse | keywordNull => .keyword

/-- How tokens are listed: in color or not, and with the decoded literals or with
the lexemes alone. -/
structure TokenListing where
  color : Bool := true
  literals : Bool := true
  deriving DecidableEq, Inhabited

namespace TokenListing

def detail (style : TokenListing) (t : Token) : String :=
  match t.literal with
  | some v => if style.literals then v.exactText else t.lexeme
  | none => t.lexeme

def line (style : TokenListing) (t : Token) : String :=
  let twoDigits (n : UInt32) : String := Text.alignRight 2 (toString n.toNat) '0'
  let colored (sequence : String) : String := if style.color then sequence else ""
  "[" ++ twoDigits t.position.line ++ ":" ++ twoDigits t.position.column ++ "] " ++
    colored t.kind.group.color ++ Text.alignLeft 8 t.kind.group.label ++ " " ++
    t.kind.name ++ " " ++ style.detail t ++ colored TokenGroup.plain ++ "\n"

def text (style : TokenListing) (tokens : List Token) : String :=
  tokens.foldl (fun out t => out ++ style.line t) ""

end TokenListing

end StackScript
