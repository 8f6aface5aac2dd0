import JaiFrontend.Parser.Basic
/-!
# Parsers of expressions

From the loosest to the tightest an expression is a chain of operators of one common rank, a chain
of `*`, `/` and `%`, a unary operator, a range, a chain of suffixes, and a primary expression.
Each parser takes the parsers that it calls for nested expressions as an argument. It calls them
only after it has consumed a token, so `expression` closes the recursion with as many levels as
there are tokens left.
-/

namespace JaiFrontend

/-- The operator of the tighter rank that a token stands for. -/
def Token.tightOp? : Token → Option BinaryOp
  | .symbol .star => some .multiply
  | .symbol .slash => some .divide
  | .symbol .percent => some .modulo
  | _ => none

def Token.looseOp? : Token → Option BinaryOp
  | .symbol .plus => some .add
  | .symbol .minus => some .subtract
  | .symbol .eqEq => some .eq
  | .symbol .notEq => some .ne
  | .symbol .lt => some .lt
  | .symbol .ltEq => some .le
  | .symbol .gt => some .gt
  | .symbol .gtEq => some .ge
  | .symbol .andAnd => some .and
  | .symbol .orOr => some .or
  | .symbol .ampersand => some .bitAnd
  | .symbol .pipe => some .bitOr
  | .symbol .caret => some .bitXor
  | .symbol .ltLt => some .shl
  | .symbol .gtGt => some .shr
  | _ => none

def Token.unaryOp? : Token → Option UnaryOp
  | .symbol .minus => some .negate
  | .symbol .bang => some .not
  | .symbol .tilde => some .bitNot
  | .symbol .star => some .pointer
  | .symbol .ampersand => some .reference
  | _ => none

def Expression.ofOperands (left : Expression) (op : BinaryOp) (right : Expression) : Expression :=
  .binary left op right (left.span.cover right.span)

namespace Parser

/-- The parsers of nested expressions. -/
structure ExpressionParsers where
  expression : Parser Expression
  /-- An expression without a binary operator outside brackets. -/
  unary : Parser Expression

/-! ### Literals and arguments -/

def fieldInit (inner : ExpressionParsers) : Parser FieldInit := do
  unless ← isAtIdentifierBefore .assign do failHere .mixedInitializers
  let start ← startOffset
  let name ← identifier
  expect .assign
  let value ← inner.expression
  return .mk name value (← spanFrom start)

def positionalInit (inner : ExpressionParsers) : Parser Expression := do
  if ← isAtIdentifierBefore .assign then failHere .mixedInitializers
  inner.expression

/-- What stands between the braces of a literal. The first value decides whether values are given by
name. -/
def literalBody (inner : ExpressionParsers) : Parser LiteralBody := do
  if ← isAt .rightBrace then return .positional []
  if ← isAtIdentifierBefore .assign then
    return .named (← commaListBefore .rightBrace (fieldInit inner))
  return .positional (← commaList (positionalInit inner))

def structLiteral (inner : ExpressionParsers) (typePath : List String) (start : Nat) :
    Parser Expression := do
  expect .leftBrace
  let body ← literalBody inner
  expect .rightBrace
  return .structLiteral typePath body (← spanFrom start)

/-- An array literal from its opening bracket on. It has at most one element. -/
def arrayLiteral (inner : ExpressionParsers) (typePath : List String) (start : Nat) :
    Parser Expression := do
  expect .leftBracket
  let element ← if ← isAt .rightBracket then pure none else some <$> inner.expression
  if ← isAt .comma then failHere .secondElement
  expect .rightBracket
  return .arrayLiteral typePath element (← spanFrom start)

/-- An argument of a call. No argument follows one that is spread. -/
def argument (inner : ExpressionParsers) : Parser Argument := do
  let start ← startOffset
  if ← accept .dotDot then
    let name ← identifier
    let span ← spanFrom start
    if ← isAt .comma then failAt .spreadNotLast span
    return .spread name span
  if ← isAtIdentifierBefore .assign then
    let name ← identifier
    advance
    let value ← inner.expression
    return .named name value (← spanFrom start)
  return .positional (← inner.expression)

def argumentList (inner : ExpressionParsers) : Parser (List Argument) := do
  expect .leftParen
  let arguments ← if ← isAt .rightParen then pure [] else commaList (argument inner)
  expect .rightParen
  return arguments

/-! ### Primary expressions -/

def parenthesized (inner : ExpressionParsers) : Parser Expression := do
  let start ← startOffset
  expect .leftParen
  let value ← inner.expression
  expect .rightParen
  return .parenthesized value (← spanFrom start)

def leadingDot (inner : ExpressionParsers) : Parser Expression := do
  let start ← startOffset
  let next ← view (·.tokenAt? 1)
  advance
  match next with
  | some (.symbol .leftBrace) => structLiteral inner [] start
  | some (.symbol .leftBracket) => arrayLiteral inner [] start
  | some token =>
    if token.isName then
      let name ← name
      return .enumValue name (← spanFrom start)
    failExpecting .nameOrLiteral
  | none => failExpecting .nameOrLiteral

/-- `ifx condition then thenValue else elseValue`, where `then` can be left out, and `else` with its
value. -/
def conditional (inner : ExpressionParsers) : Parser Expression := do
  let start ← startOffset
  advance
  let condition ← inner.expression
  let _ ← acceptKeyword .then_
  let thenValue ← inner.expression
  let elseValue ← if ← acceptKeyword .else_ then some <$> inner.expression else pure none
  return .conditional condition thenValue elseValue (← spanFrom start)

/-- A character, by the string behind its directive. -/
def charDirective : Parser Expression := do
  let start ← startOffset
  advance
  let value ← stringLiteral
  return .char value (← spanFrom start)

def operandDirective (inner : ExpressionParsers) (name : String) : Parser Expression := do
  let start ← startOffset
  advance
  let operand ← inner.unary
  return .directive name (some operand) (← spanFrom start)

/-- A directive without an operand. The one for the place of a call is left to parameters. -/
def lonelyDirective (name : String) : Parser Expression := do
  let start ← startOffset
  let context ← view (·.context)
  if DirectiveKind.ofName name = .callerLocation && context ≠ .parameterList then
    failHere .misplacedCallerLocation
  advance
  return .directive name none (← spanFrom start)

def directiveExpression (inner : ExpressionParsers) (name : String) : Parser Expression :=
  match DirectiveKind.ofName name with
  | .char => charDirective
  | .run | .code => operandDirective inner name
  | _ => lonelyDirective name

/-- What is so of the parser for each kind of directive is so of the one that the name selects. -/
theorem directiveExpression_cases {name : String}
    {motive : (ExpressionParsers → Parser Expression) → Prop}
    (char : DirectiveKind.ofName name = .char → motive fun _ => charDirective)
    (operand : DirectiveKind.ofName name = .run ∨ DirectiveKind.ofName name = .code →
      motive (operandDirective · name))
    (lonely : motive fun _ => lonelyDirective name) : motive (directiveExpression · name) := by
  unfold directiveExpression
  cases kind : DirectiveKind.ofName name with
  | char => exact char kind
  | run => exact operand (.inl kind)
  | code => exact operand (.inr kind)
  | _ => exact lonely

def atom? (token : Token) (span : Span) : Option Expression :=
  match token with
  | .integer value => some (.integer value span)
  | .float value => some (.float value span)
  | .string content => some (.string content span)
  | .keyword .true_ => some (.bool true span)
  | .keyword .false_ => some (.bool false span)
  | .keyword .null => some (.null span)
  | .symbol .undefined => some (.undefined span)
  | .identifier name => some (.identifier name span)
  | _ => none

def atom : Parser Expression := do
  let span ← view (·.span)
  match (← token?).bind (atom? · span) with
  | some value => advance; return value
  | none => failExpecting .expression

def primary (inner : ExpressionParsers) : Parser Expression := do
  match ← token? with
  | some (.symbol .leftParen) => parenthesized inner
  | some (.symbol .dot) => leadingDot inner
  | some (.keyword .ifx) => conditional inner
  | some (.directive name) => directiveExpression inner name
  | _ => atom

/-! ### Suffixes -/

def dotSuffix (inner : ExpressionParsers) (object : Expression) : Parser Expression := do
  let start := object.span.start
  let dot ← view (·.span)
  match ← view (·.tokenAt? 1) with
  | some (.symbol .star) =>
    advance
    advance
    return .dereference object (← spanFrom start)
  | some (.symbol .leftBrace) =>
    match object.namePath? with
    | some typePath => advance; structLiteral inner typePath start
    | none => failAt .literalWithoutType dot
  | some (.symbol .leftBracket) =>
    match object.namePath? with
    | some typePath => advance; arrayLiteral inner typePath start
    | none => failAt .literalWithoutType dot
  | some token =>
    if token.isName then
      advance
      let property ← name
      return .memberAccess object property (← spanFrom start)
    failAt .strayDot dot
  | none =>
    advance
    failExpecting .name

/-- The next suffix of an expression, if there is one. Only the path of a name can be called. -/
def suffix (inner : ExpressionParsers) (object : Expression) :
    Parser (ForInStep Expression) := do
  let start := object.span.start
  match ← token? with
  | some (.symbol .leftBracket) =>
    advance
    let index ← inner.expression
    expect .rightBracket
    return .yield (.arrayAccess object index (← spanFrom start))
  | some (.symbol .dot) => return .yield (← dotSuffix inner object)
  | some (.symbol .leftParen) =>
    if object.namePath?.isSome then
      let arguments ← argumentList inner
      return .yield (.call object arguments (← spanFrom start))
    return .done object
  | _ => return .done object

def postfixed (inner : ExpressionParsers) : Parser Expression := do
  repeating (suffix inner) (← primary inner)

/-! ### Operators -/

/-- `first..last`, or the first part alone. The last part can begin with a unary operator. -/
def range (inner : ExpressionParsers) : Parser Expression := do
  let first ← postfixed inner
  if ← accept .dotDot then
    let last ← inner.unary
    return .range first last (first.span.cover last.span)
  return first

def unary (inner : ExpressionParsers) : Parser Expression := do
  let start ← startOffset
  match ← token? with
  | some (.keyword .autoCast) =>
    advance
    let value ← inner.unary
    return .autoCast value (← spanFrom start)
  | token =>
    match token.bind Token.unaryOp? with
    | some op =>
      advance
      let operand ← inner.unary
      return .unary op operand (← spanFrom start)
    | none => range inner

def operator (rank : Token → Option BinaryOp) : Parser (Option BinaryOp) := do
  match (← token?).bind rank with
  | some op => advance; return some op
  | none => return none

/-- Consumes an operator of the looser rank. `==` before a brace is none: it begins the cases of a
condition. -/
def looseOperator : Parser (Option BinaryOp) := do
  if ← isAtPair .eqEq .leftBrace then return none
  operator Token.looseOp?

def tightChain (inner : ExpressionParsers) : Parser Expression :=
  chain (unary inner) (operator Token.tightOp?) .ofOperands

def looseChain (inner : ExpressionParsers) : Parser Expression :=
  chain (tightChain inner) looseOperator .ofOperands

/-! ### Closing the recursion -/

def expressionParsers : Nat → ExpressionParsers
  | 0 => ⟨failHere .exhausted, failHere .exhausted⟩
  | levels + 1 =>
    { expression := fun s => looseChain (expressionParsers levels) s
      unary := fun s => unary (expressionParsers levels) s }

/-- The parsers of expressions in a state: each token that is left allows one more level. -/
def expressionParsersAt (s : ParserState) : ExpressionParsers :=
  expressionParsers (s.rest.length + 1)

def expression : Parser Expression := fun s => (expressionParsersAt s).expression s

def arguments : Parser (List Argument) := fun s => argumentList (expressionParsersAt s) s

end Parser

end JaiFrontend
