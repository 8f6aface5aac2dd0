import JaiFrontend.Diagnostic
/-!
# Why the parser fails

A failure is a problem at a place. The problem names its cause in the terms of the grammar; the
words for it stand in one place, `Failure.report`.
-/

namespace JaiFrontend

inductive Expectation where
  | symbol (s : Symbol)
  | expression
  | identifier
  | stringLiteral
  | definition
  | type
  | name
  | nameOrLiteral
  | bindingTail
  deriving DecidableEq

def Expectation.text : Expectation → String
  | .symbol s => "`" ++ s.text ++ "`"
  | .expression => "式"
  | .identifier => "識別子"
  | .stringLiteral => "文字列リテラル"
  | .definition => "定義"
  | .type => "型"
  | .name => "名前"
  | .nameOrLiteral => "名前、`\x7b`、`[` のいずれか"
  | .bindingTail => "`:`、`=`、`;` のいずれか"

inductive Problem where
  | unexpected (expected : Expectation) (found : Token)
  | missing (s : Symbol)
  | endOfInput (expected : Expectation)
  | mixedInitializers
  /-- An argument follows one that is spread. -/
  | spreadNotLast
  /-- A literal follows what is not the name of a type. -/
  | literalWithoutType
  | strayDot
  | assignmentAsDefinition
  | misplacedCallerLocation
  | secondElement
  | backingNotInteger
  | mixedReturnValues
  /-- A condition that has to cover all cases has no cases. -/
  | misplacedComplete
  /-- A condition on what is compiled that has to cover all cases has no cases. -/
  | misplacedDirectiveComplete
  | notAssignable
  /-- The steps that were allowed are used up. The entry points allow enough for every text. -/
  | exhausted
  deriving DecidableEq

structure Failure where
  problem : Problem
  span : Span
  deriving DecidableEq

def Failure.report (failure : Failure) : GrammarError :=
  let span := failure.span
  match failure.problem with
  | .unexpected expected found => .unexpectedToken expected.text ("`" ++ found.text ++ "`") span
  | .missing s => .missingToken (Expectation.symbol s).text span
  | .endOfInput expected => .unexpectedEnd expected.text span
  | .mixedInitializers =>
    .ambiguous "構造体リテラルで位置指定と名前付きの初期化子は混在できません" span
  | .spreadNotLast => .ambiguous "`..` による展開は最後の引数でなければなりません" span
  | .literalWithoutType => .ambiguous "`.\x7b` / `.[` の前には型名が必要です" span
  | .strayDot => .ambiguous "`.` の後には名前、`*`、`\x7b`、`[` のいずれかが必要です" span
  | .assignmentAsDefinition => .invalid "定義が必要な位置に代入文があります" span
  | .misplacedCallerLocation =>
    .invalid "#caller_location はパラメータのデフォルト値にしか使えません" span
  | .secondElement => .invalid "配列リテラルには要素を1つまでしか書けません" span
  | .backingNotInteger => .invalid "列挙型の基底型は整数型でなければなりません" span
  | .mixedReturnValues => .invalid "return で位置指定と名前付きの値は混在できません" span
  | .misplacedComplete => .invalid "#complete は `if x == \x7b` の形でのみ使えます" span
  | .misplacedDirectiveComplete =>
    .invalid "#complete は `#if x == \x7b` の形でのみ使えます" span
  | .notAssignable => .invalid "代入先にできない式です" span
  | .exhausted => .invalid "" span

@[simp] theorem Failure.span_report (failure : Failure) : failure.report.span = failure.span := by
  obtain ⟨problem, span⟩ := failure
  cases problem <;> rfl

end JaiFrontend
