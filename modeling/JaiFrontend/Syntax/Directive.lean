import JaiFrontend.Syntax.Expression
/-!
# Directives

A directive is a name after `#`. Its kind says how the parser goes on; a name that the language does
not know is a directive as well.
-/

namespace JaiFrontend

inductive DirectiveKind where
  | importing | load | scopeModule | scopeFile | scopeExport | if_ | run | insert | assert | code
  | char | callerLocation | complete | other
  deriving DecidableEq

namespace DirectiveKind

def ofName (name : String) : DirectiveKind :=
  match name with
  | "import" => .importing
  | "load" => .load
  | "scope_module" => .scopeModule
  | "scope_file" => .scopeFile
  | "scope_export" => .scopeExport
  | "if" => .if_
  | "run" => .run
  | "insert" => .insert
  | "assert" => .assert
  | "code" => .code
  | "char" => .char
  | "caller_location" => .callerLocation
  | "complete" => .complete
  | _ => .other

def name : DirectiveKind → String
  | .importing => "Import"
  | .load => "Load"
  | .scopeModule => "ScopeModule"
  | .scopeFile => "ScopeFile"
  | .scopeExport => "ScopeExport"
  | .if_ => "If"
  | .run => "Run"
  | .insert => "Insert"
  | .assert => "Assert"
  | .code => "Code"
  | .char => "Char"
  | .callerLocation => "CallerLocation"
  | .complete => "Complete"
  | .other => "Other"

end DirectiveKind

/-- `#name argument ...`, kept as it stands. -/
structure DirectiveNode where
  name : String
  arguments : List String
  span : Span
  deriving DecidableEq

def DirectiveNode.kind (node : DirectiveNode) : DirectiveKind := .ofName node.name

inductive ImportKind where
  | importing | load
  deriving DecidableEq

structure ImportConfig where
  name : String
  value : Expression
  span : Span

/-- `#import "path"` or `#load "path"`, perhaps bound to a name and configured. -/
structure ImportDirective where
  binding : Option String
  kind : ImportKind
  path : String
  config : List ImportConfig
  span : Span

inductive ScopeKind where
  | module | file | export_
  deriving DecidableEq

structure ScopeMarker where
  kind : ScopeKind
  span : Span
  deriving DecidableEq

structure InsertDirective where
  name : String
  span : Span
  deriving DecidableEq

structure AssertDirective where
  arguments : List Argument
  span : Span

end JaiFrontend
