import JaiFrontend.Scan
import JaiFrontend.Span
/-!
# Lexical errors

A stretch of source that is no word, with the reason and its place. The text of the stretch is kept
where the message shows it.
-/

namespace JaiFrontend

inductive LexicalError where
  | invalidCharacter (text : String) (span : Span)
  | unterminatedString (span : Span)
  | unterminatedBlockComment (span : Span)
  | invalidNumber (text : String) (span : Span)
  deriving DecidableEq

def LexicalFault.locate (fault : LexicalFault) (text : String) (span : Span) : LexicalError :=
  match fault with
  | .invalidCharacter => .invalidCharacter text span
  | .unterminatedString => .unterminatedString span
  | .unterminatedBlockComment => .unterminatedBlockComment span
  | .invalidNumber => .invalidNumber text span

namespace LexicalError

def span : LexicalError → Span
  | .invalidCharacter _ span => span
  | .unterminatedString span => span
  | .unterminatedBlockComment span => span
  | .invalidNumber _ span => span

def message : LexicalError → String
  | .invalidCharacter text _ => "認識できない文字: '" ++ text ++ "'"
  | .unterminatedString _ => "未終了の文字列リテラル"
  | .unterminatedBlockComment _ => "未終了のブロックコメント"
  | .invalidNumber text _ => "不正な数値リテラル: " ++ text

end LexicalError

@[simp] theorem LexicalFault.span_locate (fault : LexicalFault) (text : String) (span : Span) :
    (fault.locate text span).span = span := by
  cases fault <;> rfl

end JaiFrontend
