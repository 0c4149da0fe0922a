import StackScript.Token
import StackScript.Token.Gap
import StackScript.Diagnostic

/-!
Tokens of a script. A token is found from its first character: that settles which
rule reads it, and the rule says how many more characters belong to it. Reading
never fails; what is wrong is told beside the token.
-/

namespace StackScript

/-- Letters are those of ASCII and the underscore. -/
def isLetter (c : Char) : Bool := c.isAlpha || c == '_'

/-- What a rule finds behind the first character of a token. -/
structure Lexeme where
  kind : TokenKind
  /-- How many more characters belong to the token. -/
  more : Nat := 0
  literal : Option Value := none
  faults : Array Diagnostic := #[]
  deriving Inhabited

namespace Lexeme

/-- A token of two characters if the expected one follows, else of one. -/
def oneOrTwo (second : Char) (single double : TokenKind) (cs : List Char) : Lexeme :=
  if cs.head? = some second then { kind := double, more := 1 } else { kind := single }

/-- The character that an escape stands for. -/
def unescape? : Char → Option Char
  | '\\' => some '\\'
  | 'n' => some '\n'
  | 'r' => some '\r'
  | 't' => some '\t'
  | '\'' => some '\''
  | '"' => some '"'
  | _ => none

/-- Reads on to the closing quote, or to the end of what can be a string. An escape
that stands for nothing is told at its backslash and left out. -/
def readString (file : String) (start : Mark) (quote : Char) (m : Mark) (more : Nat)
    (decoded : List Char) (faults : Array Diagnostic) : List Char → Lexeme
  | [] => finish more decoded (faults.push unclosed)
  | c :: cs =>
    if c = '\n' ∨ c = '\t' then finish more decoded (faults.push unclosed)
    else if c = quote then finish (more + 1) decoded faults
    else if c = '\\' then
      match cs with
      | [] => finish (more + 1) decoded (faults.push unclosed)
      | e :: cs =>
        let behind := (m.after c).after e
        match unescape? e with
        | some d => readString file start quote behind (more + 2) (d :: decoded) faults cs
        | none =>
          let fault := Diagnostic.error (m.position file) .invalidEscape [e.toString]
          readString file start quote behind (more + 2) decoded (faults.push fault) cs
    else readString file start quote (m.after c) (more + 1) (c :: decoded) faults cs
where
  unclosed : Diagnostic := .error (start.position file) .endInString []
  finish (more : Nat) (decoded : List Char) (faults : Array Diagnostic) : Lexeme :=
    { kind := .string, more, faults
      literal := some (.string (String.ofList decoded.reverse)) }

/-- An int, if it is in range. -/
def intLiteral (digits : List Char) : Option Value :=
  let n := Nat.ofDigitChars 10 digits 0
  if n < 0x80000000 then some (.int (Int32.ofNat n)) else none

/-- A number, if it is in range. -/
def numberLiteral (whole part : List Char) : Option Value :=
  let x := Single.ofDecimal (.ofDigits whole part)
  if x.isFinite then some (.number x) else none

/-- Digits, with a fraction only if a digit follows the point: `1.` and `1..2` begin
with an int. -/
def readNumber (first : Char) (cs : List Char) : Lexeme :=
  let more := cs.takeWhile Char.isDigit
  let whole := first :: more
  let asInt : Lexeme := { kind := .int, more := more.length, literal := intLiteral whole }
  match cs.dropWhile Char.isDigit with
  | '.' :: rest =>
    let part := rest.takeWhile Char.isDigit
    if part.isEmpty then asInt
    else
      { kind := .number, more := more.length + 1 + part.length
        literal := numberLiteral whole part }
  | _ => asInt

def readWord (first : Char) (cs : List Char) : Lexeme :=
  let more := cs.takeWhile fun c => isLetter c || c.isDigit
  let word := String.ofList (first :: more)
  { kind := (TokenKind.keyword? word).getD .identifier, more := more.length }

/-- The token that starts with `first` at `m`. -/
def read (file : String) (m : Mark) (first : Char) (cs : List Char) : Lexeme :=
  match first with
  | '{' => { kind := .openBrace }
  | '}' => { kind := .closeBrace }
  | '(' => { kind := .openParen }
  | ')' => { kind := .closeParen }
  | '[' => { kind := .openBracket }
  | ']' => { kind := .closeBracket }
  | '+' => { kind := .plus }
  | '-' => { kind := .minus }
  | '*' => { kind := .star }
  | '/' => { kind := .slash }
  | '%' => { kind := .percent }
  | ',' => { kind := .comma }
  | ':' => { kind := .colon }
  | ';' => { kind := .semicolon }
  | '~' => { kind := .bitNot }
  | '.' => oneOrTwo '.' .dot .dotDot cs
  | '=' => oneOrTwo '=' .assign .equal cs
  | '!' => oneOrTwo '=' .not .notEqual cs
  | '<' => oneOrTwo '=' .less .lessEqual cs
  | '>' => oneOrTwo '=' .greater .greaterEqual cs
  | '&' => oneOrTwo '&' .bitAnd .and cs
  | '|' => oneOrTwo '|' .bitOr .or cs
  | '\'' => readString file m first (m.after first) 0 [] #[] cs
  | '"' => readString file m first (m.after first) 0 [] #[] cs
  | c =>
    if c.isDigit then readNumber c cs
    else if isLetter c then readWord c cs
    else
      { kind := .unknown
        faults := #[.error (m.position file) .unknownCharacter [c.toString]] }

end Lexeme

/-- A token, and what was wrong from the end of the last one to its own end. -/
structure Scanned where
  token : Token
  faults : Array Diagnostic := #[]
  deriving Inhabited

namespace Cursor

/-- The next token and the cursor behind it. At the end of the text that is the end
of the stream, time and again. -/
def nextToken (c : Cursor) : Scanned × Cursor :=
  let (opened, m, rest) := Gap.space.skip c.mark c.rest
  let unclosed := match opened with
    | some start => #[Diagnostic.error (start.position c.file) .endInComment []]
    | none => #[]
  let position := m.position c.file
  match rest with
  | [] =>
    ({ token := ⟨.endOfStream, "", none, position⟩, faults := unclosed },
      { c with mark := m, rest := [] })
  | first :: rest =>
    let found := Lexeme.read c.file m first rest
    let chars := first :: rest.take found.more
    ({ token := ⟨found.kind, String.ofList chars, found.literal, position⟩,
       faults := unclosed ++ found.faults },
      { c with mark := chars.foldl Mark.after m, rest := rest.drop found.more })

/-- Every token but the last takes something from the text. -/
theorem length_nextToken (c : Cursor) (h : c.nextToken.1.token.kind ≠ .endOfStream) :
    c.nextToken.2.rest.length < c.rest.length := by
  have hle := Gap.length_skip_le .space c.mark c.rest
  revert h
  unfold nextToken
  generalize Gap.space.skip c.mark c.rest = gap at hle
  obtain ⟨opened, m, rest⟩ := gap
  cases rest with
  | nil => intro h; exact absurd rfl h
  | cons first rest =>
    intro _
    simp only [List.length_cons, List.length_drop] at hle ⊢
    omega

end Cursor

/-- The tokens of a text up to the end of the stream, which is kept apart. -/
structure TokenStream where
  ahead : List Scanned
  stop : Scanned
  deriving Inhabited

namespace TokenStream

def scan (before : Array Scanned) (c : Cursor) : TokenStream :=
  let next := c.nextToken
  if next.1.token.kind = .endOfStream then ⟨before.toList, next.1⟩
  else scan (before.push next.1) next.2
termination_by c.rest.length
decreasing_by exact c.length_nextToken ‹_›

def ofCursor (c : Cursor) : TokenStream := scan #[] c

def ofText (file text : String) : TokenStream := ofCursor (.ofText file text)

end TokenStream

end StackScript
