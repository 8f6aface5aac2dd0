import JaiFrontend.Parser.Definition
/-!
# Parsers of statements

A statement begins with a keyword, a brace, a directive or a binding; anything else is an
expression, perhaps with a value that is stored in it. An item in the body of a structure is a
field or a statement.
-/

namespace JaiFrontend.Parser

def branch (inner : TreeParsers) : Parser Statement := do
  if ← isAt .leftBrace then return .block (← block inner)
  within .block inner.statement

/-! ### Returning -/

def namedReturn : Parser NamedReturn := do
  unless ← isAtIdentifierBefore .assign do failHere .mixedReturnValues
  let start ← startOffset
  let name ← identifier
  advance
  let value ← expression
  return ⟨name, value, ← spanFrom start⟩

def positionalReturn : Parser Expression := do
  if ← isAtIdentifierBefore .assign then failHere .mixedReturnValues
  expression

/-- The values of a return statement. The first one decides whether they are given by name. -/
def returnValues : Parser ReturnValues := do
  if ← isAt .semicolon then return .positional []
  if ← isAtIdentifierBefore .assign then return .named (← commaList namedReturn)
  return .positional (← commaList positionalReturn)

def returnStatement : Parser Statement := do
  let start ← startOffset
  advance
  let values ← returnValues
  expect .semicolon
  return .return_ values (← spanFrom start)

/-! ### Conditions and loops -/

/-- Takes the parentheses off an expression, and tells whether there were any. -/
def withoutParens : Expression → Expression × Bool
  | .parenthesized inner _ => (inner, true)
  | other => (other, false)

def elseBranch (inner : TreeParsers) : Parser (Option Statement) := do
  if ← acceptKeyword .else_ then return some (← branch inner)
  return none

def ifStatement (inner : TreeParsers) : Parser Statement := do
  let start ← startOffset
  advance
  let isComplete ← acceptDirective "complete"
  let condition ← expression
  if ← isAtPair .eqEq .leftBrace then
    advance
    let body ← block inner
    return .ifEquality condition isComplete body (← spanFrom start)
  if isComplete then failHere .misplacedComplete
  let (condition, isParenthesized) := withoutParens condition
  let _ ← acceptKeyword .then_
  let thenBranch ← branch inner
  let elseBranch ← elseBranch inner
  return .if_ condition isParenthesized thenBranch elseBranch (← spanFrom start)

def loopLabel : Parser (Option String) := do
  if ← isAtIdentifierBefore .colon then
    let label ← identifier
    advance
    return some label
  return none

def loopParts (inner : TreeParsers) : Parser (Option String × Expression × Statement) := do
  advance
  let label ← loopLabel
  let head ← expression
  let body ← branch inner
  return (label, head, body)

def whileStatement (inner : TreeParsers) : Parser Statement := do
  let start ← startOffset
  let (label, condition, body) ← loopParts inner
  return .while_ label condition body (← spanFrom start)

def forStatement (inner : TreeParsers) : Parser Statement := do
  let start ← startOffset
  let (label, iterable, body) ← loopParts inner
  return .for_ label iterable body (← spanFrom start)

def caseStatement : Parser Statement := do
  let start ← startOffset
  advance
  let directive ← bareDirective
  let value ← if ← isAt .semicolon then pure none else some <$> expression
  expect .semicolon
  return .case_ directive value (← spanFrom start)

/-- `break;`, `break label;` or `break : label;`. -/
def breakStatement : Parser Statement := do
  let start ← startOffset
  advance
  let hasColon ← accept .colon
  let hasLabel ← view fun s => hasColon || s.isAtIdentifier
  let label ← if hasLabel then some <$> identifier else pure none
  expect .semicolon
  return .break_ label (← spanFrom start)

def continueStatement : Parser Statement := do
  let start ← startOffset
  advance
  expect .semicolon
  return .continue_ (← spanFrom start)

/-! ### Expressions as statements -/

/-- An expression, or a value that is stored in what the expression denotes. -/
def expressionStatement : Parser Statement := do
  let start ← startOffset
  let target ← expression
  match (← token?).bind Token.assignment? with
  | some op =>
    unless target.isAssignable do failAt .notAssignable target.span
    advance
    let value ← valueThenSemicolon
    return .assignment target none op value (← spanFrom start)
  | none =>
    expect .semicolon
    return .expression target (← spanFrom start)

/-- What is put off to the end of the block: a block or an expression. -/
def deferStatement (inner : TreeParsers) : Parser Statement := do
  let start ← startOffset
  advance
  let body ← if ← isAt .leftBrace then Statement.block <$> block inner else expressionStatement
  return .defer body (← spanFrom start)

def usingStatement (inner : TreeParsers) : Parser Statement := do
  let start ← startOffset
  advance
  let body ← inner.statement
  return .using_ body (← spanFrom start)

def statement (inner : TreeParsers) : Parser Statement := do
  match ← token? with
  | some (.keyword .return_) => returnStatement
  | some (.keyword .if_) => ifStatement inner
  | some (.keyword .while_) => whileStatement inner
  | some (.keyword .for_) => forStatement inner
  | some (.keyword .case_) => caseStatement
  | some (.keyword .break_) => breakStatement
  | some (.keyword .continue_) => continueStatement
  | some (.keyword .defer) => deferStatement inner
  | some (.keyword .using_) => usingStatement inner
  | some (.symbol .leftBrace) => return .block (← block inner)
  | some (.directive name) => return .ofDefinition (← directiveDefinition inner name)
  | _ =>
    if ← view (·.isAtBinding) then binding inner
    else expressionStatement

/-! ### Bodies of structures -/

def unionType (inner : TreeParsers) : Parser FieldType := do
  let start ← startOffset
  advance
  let (body, _) ← braced .unionBody inner.bodyItem
  return .union body (← spanFrom start)

/-- What begins with `name :` in a body: a field, or a constant if a second colon follows the
type. -/
def field (inner : TreeParsers) : Parser BodyItem := do
  let start ← startOffset
  let name ← identifier
  expect .colon
  if ← view (·.isAtKeyword .union) then
    let type ← unionType inner
    let _ ← accept .semicolon
    return .field name type none (← spanFrom start)
  let type ← inner.type
  if ← accept .colon then
    return .statement (.declaration (← constantExpression name (some type) start))
  let default ← valueAfter .assign
  expect .semicolon
  return .field name (.type type) default (← spanFrom start)

def bodyItem (inner : TreeParsers) : Parser BodyItem := do
  if ← isAtIdentifierBefore .colon then field inner
  else return .statement (← statement inner)

end JaiFrontend.Parser
