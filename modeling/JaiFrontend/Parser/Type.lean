import JaiFrontend.Parser.Expression
/-!
# Parsers of types

Types, and what procedures and structures share with them: parameters, the types that are given
back, and modifiers. Types, definitions and statements hold each other, so each parser takes the
parsers that it calls for nested trees as an argument. It calls them only after it has consumed a
token.
-/

namespace JaiFrontend.Parser

/-- The parsers of nested trees. -/
structure TreeParsers where
  type : Parser TypeExpr
  bodyItem : Parser BodyItem
  statement : Parser Statement
  definition : Parser Definition
  ifDirective : Parser Definition

def valueAfter (mark : Symbol) : Parser (Option Expression) := do
  if ← accept mark then return some (← expression)
  return none

/-! ### Parameters and modifiers -/

def parameter (inner : TreeParsers) : Parser Parameter := do
  let start ← startOffset
  let isUsing ← acceptKeyword .using_
  let isBaked ← accept .dollar
  let name ← identifier
  if ← accept .colonAssign then
    let value ← expression
    return ⟨name, none, some value, isUsing, isBaked, false, ← spanFrom start⟩
  expect .colon
  let isVariadic ← accept .dotDot
  let type ← inner.type
  let default ← valueAfter .assign
  return ⟨name, some type, default, isUsing, isBaked, isVariadic, ← spanFrom start⟩

/-- Items with commas between them, up to the closing parenthesis; there can be none. -/
def commaListInParens {α : Type} (item : Parser α) : Parser (List α) := do
  if ← isAt .rightParen then return []
  commaListBefore .rightParen item

def parameterList (inner : TreeParsers) : Parser (List Parameter) := do
  expect .leftParen
  let parameters ← within .parameterList (commaListInParens (parameter inner))
  expect .rightParen
  return parameters

def returnType (inner : TreeParsers) : Parser ReturnType := do
  let start ← startOffset
  let name ← if ← isAtIdentifierBefore .colon then
      let name ← identifier
      advance
      pure (some name)
    else pure none
  let type ← inner.type
  let default ← valueAfter .assign
  return ⟨name, type, default, ← spanFrom start⟩

/-- `-> T` or `-> (a: T, b: U)`, or nothing. -/
def returnClause (inner : TreeParsers) : Parser (List ReturnType) := do
  unless ← accept .arrow do return []
  unless ← accept .leftParen do return [← returnType inner]
  let returns ← commaListInParens (returnType inner)
  expect .rightParen
  return returns

def modifierArgument : Parser (Option String) := do
  match ← token? with
  | some (.identifier name) => advance; return some name
  | some (.string content) => advance; return some content
  | _ => return none

def modifier : Parser (Option DirectiveNode) := do
  let start ← startOffset
  match ← token? with
  | some (.directive name) =>
    advance
    let arguments ← many modifierArgument
    return some ⟨name, arguments, ← spanFrom start⟩
  | _ => return none

def bareDirective : Parser (Option DirectiveNode) := do
  let span ← view (·.span)
  match ← token? with
  | some (.directive name) => advance; return some ⟨name, [], span⟩
  | _ => return none

/-! ### Types -/

def pathStep : Parser (Option String) := do
  match ← view (·.token?), ← view (·.tokenAt? 1) with
  | some (.symbol .dot), some (.identifier name) => advance; advance; return some name
  | _, _ => return none

/-- A type that is written as a name or as the path of a name. A built-in name followed by a dot
begins a path. -/
def namedType : Parser TypeExpr := do
  let start ← startOffset
  let name ← identifier
  match PrimitiveKind.ofText? name, ← isAt .dot with
  | some kind, false => return .primitive ⟨kind, ← spanFrom start⟩
  | _, _ =>
    let path ← many pathStep
    return .named (name :: path) false (← spanFrom start)

def arraySize : Parser ArraySize := do
  if ← isAt .rightBracket then return .view
  if ← isAtPair .dotDot .rightBracket then
    advance
    return .dynamic
  return .fixed (← expression)

def arrayType (inner : TreeParsers) : Parser TypeExpr := do
  let start ← startOffset
  expect .leftBracket
  let size ← arraySize
  expect .rightBracket
  let element ← inner.type
  return .array size element (← spanFrom start)

def procedureType (inner : TreeParsers) : Parser TypeExpr := do
  let start ← startOffset
  let parameters ← parameterList inner
  let returns ← returnClause inner
  let directives ← many modifier
  return .procedure parameters returns directives (← spanFrom start)

def type (inner : TreeParsers) : Parser TypeExpr := do
  let start ← startOffset
  match ← token? with
  | some (.symbol .dollar) =>
    advance
    let name ← identifier
    return .named [name] true (← spanFrom start)
  | some (.identifier _) => namedType
  | some (.symbol .leftBracket) => arrayType inner
  | some (.symbol .star) =>
    advance
    let pointee ← inner.type
    return .pointer pointee (← spanFrom start)
  | some (.keyword .struct) =>
    advance
    let (body, _) ← braced .structBody inner.bodyItem
    return .inlineStruct body (← spanFrom start)
  | some (.symbol .leftParen) => procedureType inner
  | _ => failExpecting .type

end JaiFrontend.Parser
