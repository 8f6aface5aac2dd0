import JaiFrontend.Parser.Type
/-!
# Parsers of definitions

A definition binds a name or is a directive. What follows the name decides what it is bound to;
for a parenthesis, a look at two more tokens tells parameters from an expression.
-/

namespace JaiFrontend

def Token.assignment? : Token → Option AssignOp
  | .symbol .assign => some .assign
  | .symbol .plusAssign => some .add
  | .symbol .minusAssign => some .subtract
  | .symbol .starAssign => some .multiply
  | .symbol .slashAssign => some .divide
  | .symbol .percentAssign => some .modulo
  | _ => none

namespace ParserState

def isProcedureAt (s : ParserState) (ahead : Nat) : Bool :=
  s.tokenAt? ahead == some (.symbol .leftParen) &&
    match s.tokenAt? (ahead + 1) with
    | some (.symbol .rightParen) => true
    | some (.symbol .dollar) => true
    | some (.keyword .using_) => true
    | some (.identifier _) =>
      s.tokenAt? (ahead + 2) == some (.symbol .colon) ||
        s.tokenAt? (ahead + 2) == some (.symbol .colonAssign)
    | _ => false

/-- Whether something other than an expression begins `ahead` tokens after the current one. -/
def isDefinitionAt (s : ParserState) (ahead : Nat) : Bool :=
  match s.tokenAt? ahead with
  | some (.keyword .struct) => true
  | some (.keyword .enum) => true
  | some (.keyword .enumFlags) => true
  | some (.keyword .inline_) => true
  | some (.directive name) => name == "import" || name == "load" || name == "code"
  | some (.symbol .leftParen) => s.isProcedureAt ahead
  | _ => false

/-- Whether a name stands here, and after it a mark that binds it. -/
def isAtBinding (s : ParserState) : Bool :=
  s.isAtIdentifier && (s.isBefore .doubleColon || s.isBefore .colonAssign || s.isBefore .colon)

end ParserState

namespace Parser

def valueThenSemicolon : Parser Expression := do
  let value ← expression
  expect .semicolon
  return value

def block (inner : TreeParsers) : Parser Block := do
  let (statements, span) ← braced .block inner.statement
  return ⟨statements, span⟩

/-! ### Imports -/

def importConfig : Parser ImportConfig := do
  let start ← startOffset
  let name ← identifier
  expect .assign
  let value ← expression
  return ⟨name, value, ← spanFrom start⟩

/-- An import, from its directive on. Empty parentheses after the path say nothing. -/
def importing (binding : Option String) (start : Nat) : Parser ImportDirective := do
  let kind := if ← view (·.isAtDirective "load") then ImportKind.load else .importing
  advance
  let path ← stringLiteral
  if ← isAtPair .leftParen .rightParen then
    advance
    advance
  let config ← if ← accept .leftParen then
      let config ← commaList importConfig
      expect .rightParen
      pure config
    else pure []
  expect .semicolon
  return ⟨binding, kind, path, config, ← spanFrom start⟩

/-! ### Procedures, structures and enumerations -/

/-- A procedure, from its parameters on. Without a body it ends with a semicolon. -/
def procedure (inner : TreeParsers) (name : String) (start : Nat) : Parser Definition := do
  let isInline ← acceptKeyword .inline_
  let parameters ← parameterList inner
  let returns ← returnClause inner
  let directives ← many modifier
  let body ← if ← accept .semicolon then pure none else some <$> block inner
  return .procedure name isInline parameters returns directives body (← spanFrom start)

def struct (inner : TreeParsers) (name : String) (start : Nat) : Parser Definition := do
  advance
  let parameters ← if ← isAt .leftParen then parameterList inner else pure []
  let (body, _) ← braced .structBody inner.bodyItem
  let _ ← accept .semicolon
  return .struct name parameters body (← spanFrom start)

def backingType : Parser (Option PrimitiveType) := do
  let span ← view (·.span)
  match ← token? with
  | some (.identifier name) =>
    match (PrimitiveKind.ofText? name).filter PrimitiveKind.isInteger with
    | some kind => advance; return some ⟨kind, span⟩
    | none => failHere .backingNotInteger
  | _ => return none

/-- An item of an enumeration: `Name;`, `Name :: value;`, or a definition. -/
def enumItem (inner : TreeParsers) : Parser EnumItem := do
  let start ← startOffset
  if ← isAtIdentifierBefore .semicolon then
    let name ← identifier
    advance
    return .value ⟨name, none, ← spanFrom start⟩
  if (← isAtIdentifierBefore .doubleColon) && !(← view (·.isDefinitionAt 2)) then
    let name ← identifier
    advance
    let value ← valueThenSemicolon
    return .value ⟨name, some value, ← spanFrom start⟩
  return .definition (← inner.definition)

def enum (inner : TreeParsers) (name : String) (start : Nat) : Parser Definition := do
  let isFlags ← view (·.isAtKeyword .enumFlags)
  advance
  let directive ← bareDirective
  let backing ← backingType
  let (body, _) ← braced .enumBody (enumItem inner)
  let _ ← accept .semicolon
  return .enum name isFlags directive backing body (← spanFrom start)

/-! ### Bindings -/

def constantExpression (name : String) (type : Option TypeExpr) (start : Nat) :
    Parser Definition := do
  let value ← valueThenSemicolon
  return .constant name type (.expression value) (← spanFrom start)

def namedDefinition (inner : TreeParsers) (name : String) (start : Nat) : Parser Definition := do
  match ← token? with
  | some (.keyword .struct) => struct inner name start
  | some (.keyword .enum) => enum inner name start
  | some (.keyword .enumFlags) => enum inner name start
  | some (.keyword .inline_) => procedure inner name start
  | some (.symbol .leftParen) =>
    if ← view (·.isProcedureAt 0) then procedure inner name start
    else constantExpression name none start
  | some (.directive directive) =>
    if directive = "import" || directive = "load" then
      return .importing (← importing (some name) start)
    if directive = "code" && (← view (·.isBefore .leftBrace)) then
      advance
      let code ← block inner
      let _ ← accept .semicolon
      return .constant name none (.code code) (← spanFrom start)
    constantExpression name none start
  | _ => constantExpression name none start

def compoundOp : Parser (Option AssignOp) := do
  match ((← token?).bind Token.assignment?).filter (· ≠ .assign) with
  | some op => advance; return some op
  | none => return none

/-- What follows the type in `name : T`: a value that is stored, a constant, or nothing. -/
def typedBinding (name : String) (nameSpan : Span) (type : TypeExpr) : Parser Statement := do
  let start := nameSpan.start
  if let some op ← compoundOp then
    let value ← valueThenSemicolon
    return .assignment (.identifier name nameSpan) (some type) op value (← spanFrom start)
  match ← token? with
  | some (.symbol .colon) =>
    advance
    return .declaration (← constantExpression name (some type) start)
  | some (.symbol .assign) =>
    advance
    let value ← valueThenSemicolon
    return .declaration (.var name (some type) (some value) (← spanFrom start))
  | some (.symbol .semicolon) =>
    advance
    return .declaration (.var name (some type) none (← spanFrom start))
  | _ => failExpecting .bindingTail

/-- The binding of a name. With a type and an operator it stores a value. -/
def binding (inner : TreeParsers) : Parser Statement := do
  let nameSpan ← view (·.span)
  let start := nameSpan.start
  let name ← identifier
  if ← accept .doubleColon then return .declaration (← namedDefinition inner name start)
  if ← accept .colonAssign then
    let value ← valueThenSemicolon
    return .declaration (.var name none (some value) (← spanFrom start))
  expect .colon
  let type ← inner.type
  typedBinding name nameSpan type

/-! ### Directives -/

/-- An item of a branch, read as the items around the branch are. -/
def branchItem (inner : TreeParsers) : Parser Statement := do
  let context ← view (·.context)
  let isCase ← view (·.isAtKeyword .case_)
  if (context = .topLevel || context = .enumBody) && !isCase then
    return .ofDefinition (← inner.definition)
  inner.statement

def branchItems (inner : TreeParsers) : Parser (List Statement) := do
  if ← isAt .leftBrace then
    let context ← view (·.context)
    let (items, _) ← braced context (branchItem inner)
    return items
  return [← branchItem inner]

/-- The branch after `else`, if there is one. `else #if` is a branch of one item. -/
def elseItems (inner : TreeParsers) : Parser (Option (List Statement)) := do
  unless ← acceptKeyword .else_ do return none
  if ← view (·.isAtDirective "if") then return some [.ofDefinition (← inner.ifDirective)]
  return some (← branchItems inner)

def ifDirective (inner : TreeParsers) : Parser Definition := do
  let start ← startOffset
  advance
  let isComplete ← acceptDirective "complete"
  let condition ← expression
  if ← isAtPair .eqEq .leftBrace then
    advance
    let body ← branchItems inner
    return .ifCase condition isComplete body (← spanFrom start)
  if isComplete then failHere .misplacedDirectiveComplete
  let _ ← acceptKeyword .then_
  let thenItems ← branchItems inner
  let elseItems ← elseItems inner
  return .ifDirective condition thenItems elseItems (← spanFrom start)

def importDirective : Parser Definition := do
  return .importing (← importing none (← startOffset))

def scopeDirective (kind : ScopeKind) : Parser Definition := do
  let start ← startOffset
  advance
  let _ ← accept .semicolon
  return .scope ⟨kind, ← spanFrom start⟩

def runDirective (inner : TreeParsers) : Parser Definition := do
  let start ← startOffset
  advance
  let body ← if ← isAt .leftBrace then RunBody.block <$> block inner
    else RunBody.expression <$> expression
  let _ ← accept .semicolon
  return .run body (← spanFrom start)

def insertDirective : Parser Definition := do
  let start ← startOffset
  advance
  let target ← identifier
  expect .semicolon
  return .insert ⟨target, ← spanFrom start⟩

def assertDirective : Parser Definition := do
  let start ← startOffset
  advance
  let arguments ← arguments
  expect .semicolon
  return .assert ⟨arguments, ← spanFrom start⟩

/-- Every other directive is kept as it stands. -/
def keptDirective (name : String) : Parser Definition := do
  let start ← startOffset
  advance
  let _ ← accept .semicolon
  return .directive ⟨name, [], ← spanFrom start⟩

def directiveDefinition (inner : TreeParsers) (name : String) : Parser Definition :=
  match DirectiveKind.ofName name with
  | .importing | .load => importDirective
  | .scopeModule => scopeDirective .module
  | .scopeFile => scopeDirective .file
  | .scopeExport => scopeDirective .export_
  | .if_ => ifDirective inner
  | .run => runDirective inner
  | .insert => insertDirective
  | .assert => assertDirective
  | _ => keptDirective name

/-- What is so of the parser for each kind of directive is so of the one that the name selects. -/
theorem directiveDefinition_cases {name : String}
    {motive : (TreeParsers → Parser Definition) → Prop}
    (importing : motive fun _ => importDirective)
    (scope : ∀ kind, motive fun _ => scopeDirective kind)
    (if_ : motive ifDirective)
    (run : motive runDirective)
    (insert : motive fun _ => insertDirective)
    (assert : motive fun _ => assertDirective)
    (kept : motive fun _ => keptDirective name) : motive (directiveDefinition · name) := by
  unfold directiveDefinition
  cases DirectiveKind.ofName name with
  | importing | load => exact importing
  | scopeModule | scopeFile | scopeExport => exact scope _
  | if_ => exact if_
  | run => exact run
  | insert => exact insert
  | assert => exact assert
  | code | char | callerLocation | complete | other => exact kept

def definition (inner : TreeParsers) : Parser Definition := do
  match ← token? with
  | some (.directive name) => directiveDefinition inner name
  | _ =>
    if ← view (·.isAtBinding) then
      match ← binding inner with
      | .declaration d => return d
      | other => failAt .assignmentAsDefinition other.span
    failExpecting .definition

end Parser

end JaiFrontend
