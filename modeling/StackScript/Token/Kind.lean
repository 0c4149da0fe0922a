/-!
The kinds of words in a script. Each kind has a name of its own, and a text for
messages: its spelling if there is only one, and otherwise what it is.
-/

namespace StackScript

inductive TokenKind where
  | unknown
  | openBrace
  | closeBrace
  | openParen
  | closeParen
  | openBracket
  | closeBracket
  | plus
  | minus
  | star
  | slash
  | percent
  | comma
  | colon
  | semicolon
  | dot
  | dotDot
  | equal
  | notEqual
  | assign
  | less
  | lessEqual
  | greater
  | greaterEqual
  | not
  | bitNot
  | and
  | or
  | bitAnd
  | bitOr
  | string
  | int
  | number
  | identifier
  | keywordIf
  | keywordElse
  | keywordFor
  | keywordFun
  | keywordVar
  | keywordReturn
  | keywordWhile
  | keywordTrue
  | keywordFalse
  | keywordNull
  | endOfStream
  deriving DecidableEq, Inhabited

namespace TokenKind

def all : List TokenKind :=
  [unknown, openBrace, closeBrace, openParen, closeParen, openBracket, closeBracket, plus,
   minus, star, slash, percent, comma, colon, semicolon, dot, dotDot, equal, notEqual,
   assign, less, lessEqual, greater, greaterEqual, not, bitNot, and, or, bitAnd, bitOr,
   string, int, number, identifier, keywordIf, keywordElse, keywordFor, keywordFun,
   keywordVar, keywordReturn, keywordWhile, keywordTrue, keywordFalse, keywordNull,
   endOfStream]

theorem mem_all (kind : TokenKind) : kind ∈ all := by cases kind <;> decide

/-- The name of a kind in a listing of tokens. -/
def name : TokenKind → String
  | unknown => "Unknown"
  | openBrace => "BeginBrace"
  | closeBrace => "EndBrace"
  | openParen => "OpenParen"
  | closeParen => "CloseParen"
  | openBracket => "OpenBracket"
  | closeBracket => "CloseBracket"
  | plus => "Plus"
  | minus => "Minus"
  | star => "Mult"
  | slash => "Div"
  | percent => "Mod"
  | comma => "Comma"
  | colon => "Colon"
  | semicolon => "Term"
  | dot => "Dot"
  | dotDot => "DotDot"
  | equal => "Equal"
  | notEqual => "NotEqual"
  | assign => "Assign"
  | less => "Less"
  | lessEqual => "LessEqual"
  | greater => "Greater"
  | greaterEqual => "GreaterEqual"
  | not => "Not"
  | bitNot => "BitNot"
  | and => "And"
  | or => "Or"
  | bitAnd => "BitAnd"
  | bitOr => "BitOr"
  | string => "String"
  | int => "Int"
  | number => "Number"
  | identifier => "Identifier"
  | keywordIf => "KeywordIf"
  | keywordElse => "KeywordElse"
  | keywordFor => "KeywordFor"
  | keywordFun => "KeywordFun"
  | keywordVar => "KeywordVar"
  | keywordReturn => "KeywordReturn"
  | keywordWhile => "KeywordWhile"
  | keywordTrue => "KeywordTrue"
  | keywordFalse => "KeywordFalse"
  | keywordNull => "KeywordNull"
  | endOfStream => "EndOfStream"

/-- The kind as a message tells it. -/
def text : TokenKind → String
  | unknown => "unknown"
  | openBrace => "\x7b"
  | closeBrace => "\x7d"
  | openParen => "("
  | closeParen => ")"
  | openBracket => "["
  | closeBracket => "]"
  | plus => "+"
  | minus => "-"
  | star => "*"
  | slash => "/"
  | percent => "%"
  | comma => ","
  | colon => ":"
  | semicolon => ";"
  | dot => "."
  | dotDot => ".."
  | equal => "=="
  | notEqual => "!="
  | assign => "="
  | less => "<"
  | lessEqual => "<="
  | greater => ">"
  | greaterEqual => ">="
  | not => "!"
  | bitNot => "~"
  | and => "&&"
  | or => "||"
  | bitAnd => "&"
  | bitOr => "|"
  | string => "string"
  | int => "int"
  | number => "number"
  | identifier => "identifier"
  | keywordIf => "if"
  | keywordElse => "else"
  | keywordFor => "for"
  | keywordFun => "fun"
  | keywordVar => "var"
  | keywordReturn => "return"
  | keywordWhile => "while"
  | keywordTrue => "true"
  | keywordFalse => "false"
  | keywordNull => "null"
  | endOfStream => "end of stream"

def keywords : List TokenKind :=
  [keywordIf, keywordElse, keywordFor, keywordFun, keywordVar, keywordReturn, keywordWhile,
   keywordTrue, keywordFalse, keywordNull]

def isKeyword (kind : TokenKind) : Bool := keywords.contains kind

/-- The keyword with this spelling. -/
def keyword? (word : String) : Option TokenKind := keywords.find? fun kind => kind.text == word

def ofName? (name : String) : Option TokenKind := all.find? fun kind => kind.name == name

end TokenKind

end StackScript
