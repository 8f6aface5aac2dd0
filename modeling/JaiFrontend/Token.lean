import JaiFrontend.Decimal.Notation
/-!
# Tokens

The words of the language. A keyword or a symbol has one spelling; the other tokens carry what was
written. Blanks and comments are tokens as well, so that a token list keeps the whole text, and a
stretch that is no word stands in the list as `Token.error`.
-/

namespace JaiFrontend

inductive Keyword where
  | if_ | ifx | then_ | else_ | while_ | for_ | return_ | break_ | continue_ | case_ | defer
  | using_ | struct | enum | enumFlags | union | inline_ | autoCast | true_ | false_ | null
  deriving DecidableEq

namespace Keyword

/-- The word that is read as this keyword. -/
def text : Keyword → String
  | .if_ => "if"
  | .ifx => "ifx"
  | .then_ => "then"
  | .else_ => "else"
  | .while_ => "while"
  | .for_ => "for"
  | .return_ => "return"
  | .break_ => "break"
  | .continue_ => "continue"
  | .case_ => "case"
  | .defer => "defer"
  | .using_ => "using"
  | .struct => "struct"
  | .enum => "enum"
  | .enumFlags => "enum_flags"
  | .union => "union"
  | .inline_ => "inline"
  | .autoCast => "xx"
  | .true_ => "true"
  | .false_ => "false"
  | .null => "null"

def name : Keyword → String
  | .if_ => "If"
  | .ifx => "Ifx"
  | .then_ => "Then"
  | .else_ => "Else"
  | .while_ => "While"
  | .for_ => "For"
  | .return_ => "Return"
  | .break_ => "Break"
  | .continue_ => "Continue"
  | .case_ => "Case"
  | .defer => "Defer"
  | .using_ => "Using"
  | .struct => "Struct"
  | .enum => "Enum"
  | .enumFlags => "EnumFlags"
  | .union => "Union"
  | .inline_ => "Inline"
  | .autoCast => "AutoCast"
  | .true_ => "True"
  | .false_ => "False"
  | .null => "Null"

def all : List Keyword :=
  [.if_, .ifx, .then_, .else_, .while_, .for_, .return_, .break_, .continue_, .case_, .defer,
    .using_, .struct, .enum, .enumFlags, .union, .inline_, .autoCast, .true_, .false_, .null]

theorem mem_all (k : Keyword) : k ∈ all := by
  cases k <;> decide

def ofText? (s : String) : Option Keyword := all.find? (·.text == s)

theorem text_of_ofText? {s : String} {k : Keyword} (h : ofText? s = some k) : k.text = s := by
  simpa using List.find?_some h

end Keyword

inductive Symbol where
  | plus | minus | star | slash | percent | eqEq | notEq | lt | gt | ltEq | gtEq | andAnd | orOr
  | bang | ampersand | pipe | caret | tilde | ltLt | gtGt | assign | plusAssign | minusAssign
  | starAssign | slashAssign | percentAssign | dollar | leftParen | rightParen | leftBracket
  | rightBracket | leftBrace | rightBrace | comma | semicolon | doubleColon | colonAssign | colon
  | dotDot | dot | arrow | undefined
  deriving DecidableEq

namespace Symbol

def text : Symbol → String
  | .plus => "+"
  | .minus => "-"
  | .star => "*"
  | .slash => "/"
  | .percent => "%"
  | .eqEq => "=="
  | .notEq => "!="
  | .lt => "<"
  | .gt => ">"
  | .ltEq => "<="
  | .gtEq => ">="
  | .andAnd => "&&"
  | .orOr => "||"
  | .bang => "!"
  | .ampersand => "&"
  | .pipe => "|"
  | .caret => "^"
  | .tilde => "~"
  | .ltLt => "<<"
  | .gtGt => ">>"
  | .assign => "="
  | .plusAssign => "+="
  | .minusAssign => "-="
  | .starAssign => "*="
  | .slashAssign => "/="
  | .percentAssign => "%="
  | .dollar => "$"
  | .leftParen => "("
  | .rightParen => ")"
  | .leftBracket => "["
  | .rightBracket => "]"
  | .leftBrace => "\x7b"
  | .rightBrace => "\x7d"
  | .comma => ","
  | .semicolon => ";"
  | .doubleColon => "::"
  | .colonAssign => ":="
  | .colon => ":"
  | .dotDot => ".."
  | .dot => "."
  | .arrow => "->"
  | .undefined => "---"

def name : Symbol → String
  | .plus => "Plus"
  | .minus => "Minus"
  | .star => "Star"
  | .slash => "Slash"
  | .percent => "Percent"
  | .eqEq => "EqEq"
  | .notEq => "NotEq"
  | .lt => "Lt"
  | .gt => "Gt"
  | .ltEq => "LtEq"
  | .gtEq => "GtEq"
  | .andAnd => "AndAnd"
  | .orOr => "OrOr"
  | .bang => "Bang"
  | .ampersand => "Ampersand"
  | .pipe => "Pipe"
  | .caret => "Caret"
  | .tilde => "Tilde"
  | .ltLt => "LtLt"
  | .gtGt => "GtGt"
  | .assign => "Assign"
  | .plusAssign => "PlusAssign"
  | .minusAssign => "MinusAssign"
  | .starAssign => "StarAssign"
  | .slashAssign => "SlashAssign"
  | .percentAssign => "PercentAssign"
  | .dollar => "Dollar"
  | .leftParen => "LeftParen"
  | .rightParen => "RightParen"
  | .leftBracket => "LeftBracket"
  | .rightBracket => "RightBracket"
  | .leftBrace => "LeftBrace"
  | .rightBrace => "RightBrace"
  | .comma => "Comma"
  | .semicolon => "Semicolon"
  | .doubleColon => "DoubleColon"
  | .colonAssign => "ColonAssign"
  | .colon => "Colon"
  | .dotDot => "DotDot"
  | .dot => "Dot"
  | .arrow => "Arrow"
  | .undefined => "Undefined"

def all : List Symbol :=
  [.plus, .minus, .star, .slash, .percent, .eqEq, .notEq, .lt, .gt, .ltEq, .gtEq, .andAnd, .orOr,
    .bang, .ampersand, .pipe, .caret, .tilde, .ltLt, .gtGt, .assign, .plusAssign, .minusAssign,
    .starAssign, .slashAssign, .percentAssign, .dollar, .leftParen, .rightParen, .leftBracket,
    .rightBracket, .leftBrace, .rightBrace, .comma, .semicolon, .doubleColon, .colonAssign, .colon,
    .dotDot, .dot, .arrow, .undefined]

theorem mem_all (s : Symbol) : s ∈ all := by
  cases s <;> decide

def ofChar? : Char → Option Symbol
  | '+' => some .plus
  | '-' => some .minus
  | '*' => some .star
  | '/' => some .slash
  | '%' => some .percent
  | '<' => some .lt
  | '>' => some .gt
  | '!' => some .bang
  | '&' => some .ampersand
  | '|' => some .pipe
  | '^' => some .caret
  | '~' => some .tilde
  | '=' => some .assign
  | '$' => some .dollar
  | '(' => some .leftParen
  | ')' => some .rightParen
  | '[' => some .leftBracket
  | ']' => some .rightBracket
  | '{' => some .leftBrace
  | '}' => some .rightBrace
  | ',' => some .comma
  | ';' => some .semicolon
  | ':' => some .colon
  | '.' => some .dot
  | _ => none

def ofPair? : Char → Char → Option Symbol
  | '=', '=' => some .eqEq
  | '!', '=' => some .notEq
  | '<', '=' => some .ltEq
  | '>', '=' => some .gtEq
  | '&', '&' => some .andAnd
  | '|', '|' => some .orOr
  | '<', '<' => some .ltLt
  | '>', '>' => some .gtGt
  | '+', '=' => some .plusAssign
  | '-', '=' => some .minusAssign
  | '*', '=' => some .starAssign
  | '/', '=' => some .slashAssign
  | '%', '=' => some .percentAssign
  | ':', ':' => some .doubleColon
  | ':', '=' => some .colonAssign
  | '.', '.' => some .dotDot
  | '-', '>' => some .arrow
  | _, _ => none

def ofTriple? : Char → Char → Char → Option Symbol
  | '-', '-', '-' => some .undefined
  | _, _, _ => none

end Symbol

inductive Token where
  | whitespace
  | lineComment
  | blockComment
  | keyword (k : Keyword)
  | symbol (s : Symbol)
  | identifier (name : String)
  | directive (name : String)
  | integer (value : UInt64)
  | float (value : Float)
  /-- What stands between the quotes, escapes left as written. -/
  | string (content : String)
  /-- A stretch of text that is no word. -/
  | error
  deriving DecidableEq

namespace Token

def isTrivia : Token → Bool
  | .whitespace | .lineComment | .blockComment => true
  | _ => false

/-- How a keyword is written where it is shown, or is a name behind a point. -/
def keywordText? : Token → Option String
  | .keyword .if_ => some "if"
  | .keyword .ifx => some "ifx"
  | .keyword .then_ => some "then"
  | .keyword .else_ => some "else"
  | .keyword .while_ => some "while"
  | .keyword .for_ => some "for"
  | .keyword .return_ => some "return"
  | .keyword .break_ => some "break"
  | .keyword .continue_ => some "continue"
  | .keyword .case_ => some "case"
  | .keyword .defer => some "defer"
  | .keyword .using_ => some "using"
  | .keyword .struct => some "struct"
  | .keyword .enum => some "enum"
  | .keyword .enumFlags => some "enum_flags"
  | .keyword .union => some "union"
  | .keyword .inline_ => some "inline"
  | .keyword .autoCast => some "xx"
  | .keyword .true_ => some "true"
  | .keyword .false_ => some "false"
  | .keyword .null => some "null"
  | _ => none

/-- A keyword is written as the word that is read as the keyword. -/
@[simp] theorem keywordText?_keyword (k : Keyword) : (keyword k).keywordText? = some k.text := by
  cases k <;> rfl

def isName (t : Token) : Bool :=
  match t with
  | .identifier _ => true
  | _ => t.keywordText?.isSome

@[simp] theorem isName_identifier (name : String) : (identifier name).isName = true := rfl

@[simp] theorem isName_keyword (k : Keyword) : (keyword k).isName = true := by
  simp [isName]

/-- How the token is shown in a message: its spelling, or a word for what has no spelling of its
own. -/
def text (t : Token) : String :=
  match t.keywordText? with
  | some word => word
  | none =>
    match t with
    | .whitespace => "whitespace"
    | .lineComment => "comment"
    | .blockComment => "comment"
    | .keyword k => k.name
    | .symbol s => s.text
    | .identifier name => name
    | .directive name => "#" ++ name
    | .integer value => toString value.toNat
    | .float value => FloatNotation.plain.write value
    | .string content => "\"" ++ content ++ "\""
    | .error => "error"

@[simp] theorem text_keyword (k : Keyword) : (keyword k).text = k.text := by
  simp [text]

end Token

end JaiFrontend
