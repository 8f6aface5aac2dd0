import JaiFrontend.LexicalError
import JaiFrontend.Syntax.Description
/-!
# Diagnostics

What the reader of a source is told about it: an error, how bad it is, and its place. A log keeps
diagnostics in the order in which they were found, and hands them out in source order.
-/

namespace JaiFrontend

inductive GrammarError where
  | unexpectedToken (expected : String) (found : String) (span : Span)
  | missingToken (expected : String) (span : Span)
  | unexpectedEnd (expected : String) (span : Span)
  | ambiguous (reason : String) (span : Span)
  | invalid (reason : String) (span : Span)
  deriving DecidableEq

namespace GrammarError

def span : GrammarError → Span
  | .unexpectedToken _ _ span => span
  | .missingToken _ span => span
  | .unexpectedEnd _ span => span
  | .ambiguous _ span => span
  | .invalid _ span => span

def name : GrammarError → String
  | .unexpectedToken .. => "UnexpectedToken"
  | .missingToken .. => "MissingToken"
  | .unexpectedEnd .. => "UnexpectedEof"
  | .ambiguous .. => "AmbiguousConstruct"
  | .invalid .. => "InvalidSyntax"

def message : GrammarError → String
  | .unexpectedToken expected found _ =>
    "予期しないトークン: " ++ expected ++ "を期待しましたが、" ++ found ++ "が見つかりました"
  | .missingToken expected _ => expected ++ "がありません"
  | .unexpectedEnd expected _ => "予期しない入力の終了: " ++ expected ++ "を期待していました"
  | .ambiguous reason _ => "曖昧または認識できない構文: " ++ reason
  | .invalid reason _ => "不正な構文: " ++ reason

def describe (error : GrammarError) : Datum :=
  .tagged error.name <| .record error.name <|
    (match error with
    | .unexpectedToken expected found _ => [("expected", .text expected), ("found", .text found)]
    | .missingToken expected _ => [("expected", .text expected)]
    | .unexpectedEnd expected _ => [("expected", .text expected)]
    | .ambiguous reason _ => [("message", .text reason)]
    | .invalid reason _ => [("message", .text reason)]) ++ [("span", error.span.describe)]

end GrammarError

def LexicalError.name : LexicalError → String
  | .invalidCharacter .. => "InvalidCharacter"
  | .unterminatedString .. => "UnterminatedString"
  | .unterminatedBlockComment .. => "UnterminatedBlockComment"
  | .invalidNumber .. => "InvalidNumber"

def LexicalError.describe (error : LexicalError) : Datum :=
  .tagged error.name <| .record error.name <|
    (match error with
    | .invalidCharacter text _ => [("text", .text text)]
    | .invalidNumber text _ => [("text", .text text)]
    | .unterminatedString _ => []
    | .unterminatedBlockComment _ => []) ++ [("span", error.span.describe)]

inductive SourceError where
  | lexical (error : LexicalError)
  | grammar (error : GrammarError)
  | file (reason : String)
  | other (reason : String)
  deriving DecidableEq

namespace SourceError

def span? : SourceError → Option Span
  | .lexical error => some error.span
  | .grammar error => some error.span
  | .file _ => none
  | .other _ => none

def message : SourceError → String
  | .lexical error => "字句解析エラー: " ++ error.message
  | .grammar error => "構文解析エラー: " ++ error.message
  | .file reason => "ファイル操作エラー: " ++ reason
  | .other reason => reason

def describe : SourceError → Datum
  | .lexical error => .tagged "Lexer" error.describe
  | .grammar error => .tagged "Parser" error.describe
  | .file reason => .tagged "Io" (.text reason)
  | .other reason => .tagged "Other" (.text reason)

end SourceError

inductive Severity where
  /-- A stretch that is no word, or a text that ends too early. -/
  | error
  /-- The parser has gone on after the error. -/
  | recovered
  deriving DecidableEq

def Severity.name : Severity → String
  | .error => "Error"
  | .recovered => "Recovered"

structure Diagnostic where
  error : SourceError
  severity : Severity
  span : Span
  deriving DecidableEq

namespace Diagnostic

/-- The diagnostic of an error at the error's own place, or at the beginning if it has none. -/
def ofError (error : SourceError) (severity : Severity) : Diagnostic :=
  ⟨error, severity, error.span?.getD (.point 0)⟩

def message (d : Diagnostic) : String := d.error.message

/-- Source order: by the start, then by the end. -/
def precedes (a b : Diagnostic) : Bool :=
  a.span.start < b.span.start || (a.span.start == b.span.start && a.span.stop ≤ b.span.stop)

def label (d : Diagnostic) : String :=
  match d.error with
  | .lexical (.invalidCharacter ..) => "ここに不正な文字があります"
  | .lexical (.unterminatedString ..) => "文字列が閉じられていません"
  | .lexical (.unterminatedBlockComment ..) => "コメントが閉じられていません"
  | .grammar (.missingToken ..) => "ここに必要です"
  | _ => ""

def notes (d : Diagnostic) : List String :=
  match d.severity with
  | .error => []
  | .recovered => ["以降の解析は同期点から再開しました"]

end Diagnostic

structure DiagnosticLog where
  entries : List Diagnostic
  deriving DecidableEq

namespace DiagnosticLog

def empty : DiagnosticLog := ⟨[]⟩

def add (log : DiagnosticLog) (error : SourceError) (severity : Severity) : DiagnosticLog :=
  ⟨log.entries ++ [.ofError error severity]⟩

def extend (log : DiagnosticLog) (diagnostics : List Diagnostic) : DiagnosticLog :=
  ⟨log.entries ++ diagnostics⟩

def count (log : DiagnosticLog) : Nat := log.entries.length

def hasErrors (log : DiagnosticLog) : Bool := !log.entries.isEmpty

/-- The diagnostics in source order; those of one place stay in the order of the log. -/
def sorted (log : DiagnosticLog) : List Diagnostic := log.entries.mergeSort Diagnostic.precedes

end DiagnosticLog

end JaiFrontend
