import Mathlib.Computability.Language
import Mathlib.Data.List.DropRight
import Mathlib.Data.Nat.Digits.Defs
import JaiFrontend.Lexer
/-!
# The rules of words

The words of the language, rule by rule: each rule is the set of texts it allows, a regular one. A
text begins with the longest word that any rule allows. What the word stands for is said apart from
how it is found, so that the lexer can be held against it.
-/

namespace JaiFrontend

open scoped Computability

/-! ### Texts of one rule -/

/-- The texts of a single character of a class. -/
def oneOf (isMember : Char → Prop) : Language Char := {w | ∃ c, w = [c] ∧ isMember c}

def spelled (text : String) : Language Char := {w | w = text.toList}

def Within (ranges : List (Char × Char)) (c : Char) : Prop :=
  ∃ range ∈ ranges, range.1 ≤ c ∧ c ≤ range.2

namespace WordRule

def blank : Language Char :=
  oneOf (Within [(' ', ' '), ('\t', '\t'), ('\r', '\r'), ('\n', '\n'), ('\x0c', '\x0c')])

def letter : Language Char := oneOf (Within [('a', 'z'), ('A', 'Z'), ('_', '_')])

def letterOrDigit : Language Char :=
  oneOf (Within [('a', 'z'), ('A', 'Z'), ('0', '9'), ('_', '_')])

def digit : Language Char := oneOf (Within [('0', '9')])

def digitOrSeparator : Language Char := oneOf (Within [('0', '9'), ('_', '_')])

def hexDigit : Language Char :=
  oneOf (Within [('0', '9'), ('a', 'f'), ('A', 'F'), ('_', '_')])

def bit : Language Char := oneOf (Within [('0', '1'), ('_', '_')])

def word : Language Char := letter * letterOrDigit∗

def numeral : Language Char := digit * digitOrSeparator∗

end WordRule

inductive WordRule where
  | blanks
  | lineComment
  | commentOpener
  | keyword (k : Keyword)
  | name
  | directive
  | decimal
  | hexadecimal
  | binary
  | fraction
  | quote
  | symbol (s : Symbol)

def WordRule.texts : WordRule → Language Char
  | .blanks => blank * blank∗
  | .lineComment => spelled "//" * (oneOf (· ≠ '\n'))∗
  | .commentOpener => spelled "/*"
  | .keyword k => spelled k.text
  | .name => word
  | .directive => spelled "#" * word
  | .decimal => numeral
  | .hexadecimal => spelled "0x" * (hexDigit * hexDigit∗)
  | .binary => spelled "0b" * (bit * bit∗)
  | .fraction => numeral * (spelled "." * numeral)
  | .quote => spelled "\""
  | .symbol s => spelled s.text

/-- At the head of a text, no rule allows a longer word than this one. Of the rules that allow it, a
keyword goes before a name. -/
structure LongestMatch (rule : WordRule) (word rest : List Char) : Prop where
  isMatch : word ∈ rule.texts
  longest : ∀ other word' rest', word' ++ rest' = word ++ rest → word' ∈ WordRule.texts other →
    word'.length ≤ word.length
  keywordFirst : rule = .name → ∀ k, word ∉ (WordRule.keyword k).texts

/-! ### What a word stands for -/

/-- The first place of a text at which the closing mark stands and counts, given what is before
it. -/
structure ClosesFirst (mark : List Char) (counts : List Char → Prop)
    (text body after : List Char) : Prop where
  split : text = body ++ (mark ++ after)
  closes : counts body
  first : ∀ body' after', text = body' ++ (mark ++ after') → counts body' →
    body.length ≤ body'.length

def NeverCloses (mark : List Char) (counts : List Char → Prop) (text : List Char) : Prop :=
  ∀ body after, text = body ++ (mark ++ after) → ¬counts body

/-- No backslash escapes what follows this text: those at its end escape each other in pairs. -/
def Unescaped (body : List Char) : Prop := Even (body.rtakeWhile (· == '\\')).length

/-- The digits of a numeral, without the separators. -/
def digitsOf (numeral : List Char) : List Char := numeral.filter (· ≠ '_')

def numberOf (base : Nat) (digits : List Char) : Nat :=
  Nat.ofDigits base (digits.reverse.map digitValue)

/-- An integer numeral has a digit, and a value of at most 64 bits. -/
inductive IntegerReads (base : Nat) (numeral : List Char) : Except LexicalFault Token → Prop where
  | value {v : UInt64} (digit : digitsOf numeral ≠ [])
      (value : v.toNat = numberOf base (digitsOf numeral)) :
      IntegerReads base numeral (.ok (.integer v))
  | invalid (h : digitsOf numeral = [] ∨ 2 ^ 64 ≤ numberOf base (digitsOf numeral)) :
      IntegerReads base numeral (.error .invalidNumber)

/-- What is read where a rule has allowed a word: a string or a comment goes on to where it closes,
or to the end of the text. -/
inductive WordRule.Makes : WordRule → List Char → List Char → Scan → Prop where
  | blanks {word rest : List Char} : Makes .blanks word rest ⟨.ok .whitespace, word, rest⟩
  | lineComment {word rest : List Char} :
      Makes .lineComment word rest ⟨.ok .lineComment, word, rest⟩
  | blockComment {word rest body after : List Char}
      (first : ClosesFirst ['*', '/'] (fun _ => True) rest body after) :
      Makes .commentOpener word rest ⟨.ok .blockComment, word ++ (body ++ ['*', '/']), after⟩
  | openComment {word rest : List Char} (never : NeverCloses ['*', '/'] (fun _ => True) rest) :
      Makes .commentOpener word rest ⟨.error .unterminatedBlockComment, word ++ rest, []⟩
  | keyword {k : Keyword} {word rest : List Char} :
      Makes (.keyword k) word rest ⟨.ok (.keyword k), word, rest⟩
  | name {word rest : List Char} :
      Makes .name word rest ⟨.ok (.identifier (String.ofList word)), word, rest⟩
  | directive {name rest : List Char} :
      Makes .directive ('#' :: name) rest
        ⟨.ok (.directive (String.ofList name)), '#' :: name, rest⟩
  | decimal {word rest : List Char} {found : Except LexicalFault Token}
      (reads : IntegerReads 10 word found) : Makes .decimal word rest ⟨found, word, rest⟩
  | hexadecimal {numeral rest : List Char} {found : Except LexicalFault Token}
      (reads : IntegerReads 16 numeral found) :
      Makes .hexadecimal ('0' :: 'x' :: numeral) rest ⟨found, '0' :: 'x' :: numeral, rest⟩
  | binary {numeral rest : List Char} {found : Except LexicalFault Token}
      (reads : IntegerReads 2 numeral found) :
      Makes .binary ('0' :: 'b' :: numeral) rest ⟨found, '0' :: 'b' :: numeral, rest⟩
  | fraction {whole places rest : List Char} (hwhole : whole ∈ numeral)
      (hplaces : places ∈ numeral) :
      Makes .fraction (whole ++ '.' :: places) rest
        ⟨.ok (.float (Float.ofScientific (numberOf 10 (digitsOf whole ++ digitsOf places)) true
          (digitsOf places).length)), whole ++ '.' :: places, rest⟩
  | string {word rest body after : List Char}
      (first : ClosesFirst ['"'] Unescaped rest body after) :
      Makes .quote word rest ⟨.ok (.string (String.ofList body)), word ++ (body ++ ['"']), after⟩
  | openString {word rest : List Char} (never : NeverCloses ['"'] Unescaped rest) :
      Makes .quote word rest ⟨.error .unterminatedString, word ++ rest, []⟩
  | symbol {s : Symbol} {word rest : List Char} :
      Makes (.symbol s) word rest ⟨.ok (.symbol s), word, rest⟩

/-- What a text begins with: what its longest word makes, or one stray character if it begins with
no word at all. -/
inductive Begins : List Char → Scan → Prop where
  | word {rule : WordRule} {word rest : List Char} {s : Scan}
      (longest : LongestMatch rule word rest) (makes : rule.Makes word rest s) :
      Begins (word ++ rest) s
  | stray {c : Char} {text : List Char}
      (noWord : ∀ rule word rest, word ++ rest = c :: text → word ∉ WordRule.texts rule) :
      Begins (c :: text) ⟨.error .invalidCharacter, [c], text⟩

/-- The lexemes and the errors of a text that stands at some place of a source, by the rules: what
it begins with, and then those of what is left of it. -/
inductive LexesTo : Nat → Position → List Char → List Lexeme → List LexicalError → Prop where
  | done {offset : Nat} {position : Position} : LexesTo offset position [] [] []
  | word {offset : Nat} {position : Position} {text taken rest : List Char} {token : Token}
      {lexemes : List Lexeme} {errors : List LexicalError}
      (begins : Begins text ⟨.ok token, taken, rest⟩)
      (later : LexesTo (offset + byteLength taken) (position.advanceAll taken) rest lexemes
        errors) :
      LexesTo offset position text
        (⟨token, String.ofList taken, position, ⟨offset, offset + byteLength taken⟩⟩ :: lexemes)
        errors
  | fault {offset : Nat} {position : Position} {text taken rest : List Char} {fault : LexicalFault}
      {lexemes : List Lexeme} {errors : List LexicalError}
      (begins : Begins text ⟨.error fault, taken, rest⟩)
      (later : LexesTo (offset + byteLength taken) (position.advanceAll taken) rest lexemes
        errors) :
      LexesTo offset position text
        (⟨.error, String.ofList taken, position, ⟨offset, offset + byteLength taken⟩⟩ :: lexemes)
        (fault.locate (String.ofList taken) ⟨offset, offset + byteLength taken⟩ :: errors)

/-- The fault of a stretch that is no word, told from its first characters alone. -/
def LexicalFault.ofStart : List Char → LexicalFault
  | '"' :: _ => .unterminatedString
  | '/' :: '*' :: _ => .unterminatedBlockComment
  | c :: _ => if c.isDigit then .invalidNumber else .invalidCharacter
  | [] => .invalidCharacter

end JaiFrontend
