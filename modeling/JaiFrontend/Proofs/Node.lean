import JaiFrontend.Syntax.Tree
/-!
# The nodes of a tree

A tree seen as nodes: every part that carries a span of its own is a node, and it holds the nodes of
its parts in source order. A part that only wraps another one (a declaration as a statement, an
expression as an argument) is no node of its own. The node of a body between braces keeps the items
of the body apart from what stands before the brace.
-/

namespace JaiFrontend

/-- A part of a tree, with the parts that it holds. -/
inductive Node where
  | plain (span : Span) (parts : List Node)
  /-- The parts that stand before a brace, and the items between the braces. -/
  | braced (span : Span) (parts : List Node) (items : List Node)

namespace Node

def span : Node → Span
  | plain span _ => span
  | braced span _ _ => span

def children : Node → List Node
  | plain _ parts => parts
  | braced _ parts items => parts ++ items

mutual

/-- A node and all nodes below it. -/
def family : Node → List Node
  | plain span parts => plain span parts :: families parts
  | braced span parts items => braced span parts items :: (families parts ++ families items)

def families : List Node → List Node
  | [] => []
  | n :: ns => n.family ++ families ns

end

end Node

/-! ### Expressions -/

mutual

def Expression.node : Expression → Node
  | .identifier _ span => .plain span []
  | .integer _ span => .plain span []
  | .float _ span => .plain span []
  | .string _ span => .plain span []
  | .char _ span => .plain span []
  | .bool _ span => .plain span []
  | .null span => .plain span []
  | .undefined span => .plain span []
  | .call callee arguments span => .plain span (callee.node :: argumentNodes arguments)
  | .binary left _ right span => .plain span [left.node, right.node]
  | .unary _ operand span => .plain span [operand.node]
  | .parenthesized inner span => .plain span [inner.node]
  | .structLiteral _ body span => .plain span body.nodes
  | .arrayLiteral _ element span => .plain span (optionalExpressionNodes element)
  | .enumValue _ span => .plain span []
  | .memberAccess object _ span => .plain span [object.node]
  | .range first last span => .plain span [first.node, last.node]
  | .dereference object span => .plain span [object.node]
  | .autoCast value span => .plain span [value.node]
  | .arrayAccess object index span => .plain span [object.node, index.node]
  | .conditional condition thenValue elseValue span =>
    .plain span (condition.node :: thenValue.node :: optionalExpressionNodes elseValue)
  | .directive _ operand span => .plain span (optionalExpressionNodes operand)

def optionalExpressionNodes : Option Expression → List Node
  | none => []
  | some e => [e.node]

def expressionNodes : List Expression → List Node
  | [] => []
  | e :: es => e.node :: expressionNodes es

def Argument.node : Argument → Node
  | .positional value => value.node
  | .named _ value span => .plain span [value.node]
  | .spread _ span => .plain span []

def argumentNodes : List Argument → List Node
  | [] => []
  | a :: as => a.node :: argumentNodes as

def LiteralBody.nodes : LiteralBody → List Node
  | .positional values => expressionNodes values
  | .named fields => fieldInitNodes fields

def FieldInit.node : FieldInit → Node
  | .mk _ value span => .plain span [value.node]

def fieldInitNodes : List FieldInit → List Node
  | [] => []
  | f :: fs => f.node :: fieldInitNodes fs

end

theorem expressionNodes_eq_map (es : List Expression) :
    expressionNodes es = es.map Expression.node := by
  induction es with
  | nil => rfl
  | cons e es ih => rw [expressionNodes, ih, List.map_cons]

theorem argumentNodes_eq_map (as : List Argument) : argumentNodes as = as.map Argument.node := by
  induction as with
  | nil => rfl
  | cons a as ih => rw [argumentNodes, ih, List.map_cons]

theorem fieldInitNodes_eq_map (fs : List FieldInit) :
    fieldInitNodes fs = fs.map FieldInit.node := by
  induction fs with
  | nil => rfl
  | cons f fs ih => rw [fieldInitNodes, ih, List.map_cons]

/-! ### Nodes that hold expressions only -/

def DirectiveNode.node (d : DirectiveNode) : Node := .plain d.span []

def optionalDirectiveNodes (d : Option DirectiveNode) : List Node :=
  d.toList.map DirectiveNode.node

def ImportConfig.node (config : ImportConfig) : Node := .plain config.span [config.value.node]

def ImportDirective.node (d : ImportDirective) : Node :=
  .plain d.span (d.config.map ImportConfig.node)

def ScopeMarker.node (marker : ScopeMarker) : Node := .plain marker.span []

def InsertDirective.node (d : InsertDirective) : Node := .plain d.span []

def AssertDirective.node (d : AssertDirective) : Node :=
  .plain d.span (d.arguments.map Argument.node)

def PrimitiveType.node (type : PrimitiveType) : Node := .plain type.span []

def ArraySize.nodes : ArraySize → List Node
  | .fixed length => [length.node]
  | .dynamic => []
  | .view => []

def Enumerator.node (e : Enumerator) : Node := .plain e.span (optionalExpressionNodes e.value)

def NamedReturn.node (value : NamedReturn) : Node := .plain value.span [value.value.node]

def ReturnValues.nodes : ReturnValues → List Node
  | .positional values => values.map Expression.node
  | .named values => values.map NamedReturn.node

/-! ### Types, definitions and statements -/

mutual

def TypeExpr.node : TypeExpr → Node
  | .primitive type => type.node
  | .named _ _ span => .plain span []
  | .array size element span => .plain span (size.nodes ++ [element.node])
  | .pointer pointee span => .plain span [pointee.node]
  | .inlineStruct body span => .braced span [] (bodyItemNodes body)
  | .procedure parameters returns directives span =>
    .plain span
      (parameterNodes parameters ++ returnTypeNodes returns ++ directives.map DirectiveNode.node)

def optionalTypeNodes : Option TypeExpr → List Node
  | none => []
  | some t => [t.node]

def Parameter.node : Parameter → Node
  | ⟨_, type, default, _, _, _, span⟩ =>
    .plain span (optionalTypeNodes type ++ optionalExpressionNodes default)

def parameterNodes : List Parameter → List Node
  | [] => []
  | p :: ps => p.node :: parameterNodes ps

def ReturnType.node : ReturnType → Node
  | ⟨_, type, default, span⟩ => .plain span (type.node :: optionalExpressionNodes default)

def returnTypeNodes : List ReturnType → List Node
  | [] => []
  | r :: rs => r.node :: returnTypeNodes rs

def BodyItem.node : BodyItem → Node
  | .field _ type default span => .plain span (type.node :: optionalExpressionNodes default)
  | .statement s => s.node

def bodyItemNodes : List BodyItem → List Node
  | [] => []
  | i :: is => i.node :: bodyItemNodes is

def FieldType.node : FieldType → Node
  | .type t => t.node
  | .union body span => .braced span [] (bodyItemNodes body)

def EnumItem.node : EnumItem → Node
  | .value enumerator => enumerator.node
  | .definition d => d.node

def enumItemNodes : List EnumItem → List Node
  | [] => []
  | i :: is => i.node :: enumItemNodes is

def ConstantValue.node : ConstantValue → Node
  | .expression value => value.node
  | .code block => block.node

def RunBody.node : RunBody → Node
  | .block block => block.node
  | .expression value => value.node

def Definition.node : Definition → Node
  | .importing d => d.node
  | .procedure _ _ parameters returns directives body span =>
    .plain span
      (parameterNodes parameters ++ returnTypeNodes returns ++ directives.map DirectiveNode.node ++
        optionalBlockNodes body)
  | .struct _ parameters body span => .braced span (parameterNodes parameters) (bodyItemNodes body)
  | .enum _ _ directive backing body span =>
    .braced span (optionalDirectiveNodes directive ++ backing.toList.map PrimitiveType.node)
      (enumItemNodes body)
  | .constant _ type value span => .plain span (optionalTypeNodes type ++ [value.node])
  | .var _ type value span => .plain span (optionalTypeNodes type ++ optionalExpressionNodes value)
  | .scope marker => marker.node
  | .ifDirective condition thenItems elseItems span =>
    .plain span
      (condition.node :: statementNodes thenItems ++ optionalStatementListNodes elseItems)
  | .ifCase condition _ body span => .plain span (condition.node :: statementNodes body)
  | .run body span => .plain span [body.node]
  | .assert d => d.node
  | .insert d => d.node
  | .directive d => d.node

def Block.node : Block → Node
  | ⟨statements, span⟩ => .braced span [] (statementNodes statements)

def optionalBlockNodes : Option Block → List Node
  | none => []
  | some b => [b.node]

def Statement.node : Statement → Node
  | .return_ values span => .plain span values.nodes
  | .if_ condition _ thenBranch elseBranch span =>
    .plain span (condition.node :: thenBranch.node :: optionalStatementNodes elseBranch)
  | .ifEquality condition _ body span => .plain span [condition.node, body.node]
  | .while_ _ condition body span => .plain span [condition.node, body.node]
  | .for_ _ iterable body span => .plain span [iterable.node, body.node]
  | .case_ directive value span =>
    .plain span (optionalDirectiveNodes directive ++ optionalExpressionNodes value)
  | .break_ _ span => .plain span []
  | .continue_ span => .plain span []
  | .defer body span => .plain span [body.node]
  | .using_ body span => .plain span [body.node]
  | .expression expression span => .plain span [expression.node]
  | .assignment target typeHint _ value span =>
    .plain span (target.node :: optionalTypeNodes typeHint ++ [value.node])
  | .declaration d => d.node
  | .block b => b.node
  | .assert d => d.node
  | .insert d => d.node
  | .run body span => .plain span [body.node]
  | .directive d => d.node
  | .ifDirective condition thenItems elseItems span =>
    .plain span
      (condition.node :: statementNodes thenItems ++ optionalStatementListNodes elseItems)
  | .ifCase condition _ body span => .plain span (condition.node :: statementNodes body)

def optionalStatementNodes : Option Statement → List Node
  | none => []
  | some s => [s.node]

def statementNodes : List Statement → List Node
  | [] => []
  | s :: ss => s.node :: statementNodes ss

def optionalStatementListNodes : Option (List Statement) → List Node
  | none => []
  | some ss => statementNodes ss

end

theorem parameterNodes_eq_map (ps : List Parameter) :
    parameterNodes ps = ps.map Parameter.node := by
  induction ps with
  | nil => rfl
  | cons p ps ih => rw [parameterNodes, ih, List.map_cons]

theorem returnTypeNodes_eq_map (rs : List ReturnType) :
    returnTypeNodes rs = rs.map ReturnType.node := by
  induction rs with
  | nil => rfl
  | cons r rs ih => rw [returnTypeNodes, ih, List.map_cons]

theorem bodyItemNodes_eq_map (is : List BodyItem) : bodyItemNodes is = is.map BodyItem.node := by
  induction is with
  | nil => rfl
  | cons i is ih => rw [bodyItemNodes, ih, List.map_cons]

theorem enumItemNodes_eq_map (is : List EnumItem) : enumItemNodes is = is.map EnumItem.node := by
  induction is with
  | nil => rfl
  | cons i is ih => rw [enumItemNodes, ih, List.map_cons]

theorem statementNodes_eq_map (ss : List Statement) :
    statementNodes ss = ss.map Statement.node := by
  induction ss with
  | nil => rfl
  | cons s ss ih => rw [statementNodes, ih, List.map_cons]

/-! ### The span of a node is the span of its part -/

theorem Expression.span_node (e : Expression) : e.node.span = e.span := by
  cases e <;> rw [Expression.node] <;> rfl

theorem Definition.span_node (d : Definition) : d.node.span = d.span := by
  cases d <;> rw [Definition.node] <;> rfl

theorem Statement.span_node (s : Statement) : s.node.span = s.span := by
  cases s <;> rw [Statement.node]
  case declaration d => exact d.span_node
  case block b => cases b; rw [Block.node]; rfl
  all_goals rfl

theorem Statement.node_ofDefinition (d : Definition) : (ofDefinition d).node = d.node := by
  cases d <;> rw [ofDefinition, Statement.node] <;> simp [Definition.node]

def SourceFile.nodes (file : SourceFile) : List Node := file.definitions.map Definition.node

end JaiFrontend
