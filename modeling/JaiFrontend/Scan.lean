import JaiFrontend.Token
/-!
# One word at the head of a text

`scan` reads the longest word at the head of a non-empty text. It splits the text into what the word
takes and the rest, and gives the word's token or the reason why the stretch is none. The two parts
together are the text (`scan_append`), and the word is never empty (`scan_rest_length_lt`).
-/

namespace JaiFrontend

inductive LexicalFault where
  | invalidCharacter
  | unterminatedString
  | unterminatedBlockComment
  /-- A numeral without a digit, or one beyond 64 bits. -/
  | invalidNumber
  deriving DecidableEq

/-- A word at the head of a text, and how it splits the text. -/
structure Scan where
  found : Except LexicalFault Token
  taken : List Char
  rest : List Char

/-! ### Character classes

All of them are classes of ASCII characters: the language has no other letters, digits or blanks. -/

def isBlank (c : Char) : Bool :=
  c == ' ' || c == '\t' || c == '\n' || c == '\r' || c == '\x0c'

def isNameStart (c : Char) : Bool := c.isAlpha || c == '_'

def isNamePart (c : Char) : Bool := c.isAlphanum || c == '_'

def isDecimalPart (c : Char) : Bool := c.isDigit || c == '_'

def isHexPart (c : Char) : Bool :=
  c.isDigit || ('a' ≤ c && c ≤ 'f') || ('A' ≤ c && c ≤ 'F') || c == '_'

def isBinaryPart (c : Char) : Bool := c == '0' || c == '1' || c == '_'

/-! ### Numerals -/

def digitValue (c : Char) : Nat :=
  if c.isDigit then c.toNat - '0'.toNat
  else if 'a' ≤ c && c ≤ 'f' then c.toNat - 'a'.toNat + 10
  else c.toNat - 'A'.toNat + 10

def withoutSeparators (digits : List Char) : List Char := digits.filter (· != '_')

def valueOfDigits (base : Nat) (digits : List Char) : Nat :=
  digits.foldl (fun value c => value * base + digitValue c) 0

/-- The token of an integer numeral: it needs a digit, and a value below `2 ^ 64`. -/
def integerToken (base : Nat) (numeral : List Char) : Except LexicalFault Token :=
  let digits := withoutSeparators numeral
  let value := valueOfDigits base digits
  if digits.isEmpty || UInt64.size ≤ value then .error .invalidNumber
  else .ok (.integer (UInt64.ofNat value))

/-- The token of a numeral with a fraction: the floating-point number nearest to its value. -/
def floatToken (whole fraction : List Char) : Token :=
  let places := withoutSeparators fraction
  .float (Float.ofScientific (valueOfDigits 10 (withoutSeparators whole ++ places)) true
    places.length)

/-- A numeral without a base mark: an integer, or a fraction if a point and a digit follow. -/
def scanDecimal (text : List Char) : Scan :=
  let whole := text.takeWhile isDecimalPart
  match text.dropWhile isDecimalPart with
  | '.' :: d :: rest =>
    if d.isDigit then
      let fraction := (d :: rest).takeWhile isDecimalPart
      ⟨.ok (floatToken whole fraction), whole ++ '.' :: fraction,
        (d :: rest).dropWhile isDecimalPart⟩
    else ⟨integerToken 10 whole, whole, '.' :: d :: rest⟩
  | rest => ⟨integerToken 10 whole, whole, rest⟩

def scanMarked (mark : List Char) (base : Nat) (isPart : Char → Bool) (body : List Char) : Scan :=
  let numeral := body.takeWhile isPart
  ⟨integerToken base numeral, mark ++ numeral, body.dropWhile isPart⟩

/-- A numeral. A base mark counts only if a digit or a separator follows it. -/
def scanNumber (c : Char) (text : List Char) : Scan :=
  match c, text with
  | '0', 'x' :: d :: body =>
    if isHexPart d then scanMarked ['0', 'x'] 16 isHexPart (d :: body)
    else scanDecimal ('0' :: 'x' :: d :: body)
  | '0', 'b' :: d :: body =>
    if isBinaryPart d then scanMarked ['0', 'b'] 2 isBinaryPart (d :: body)
    else scanDecimal ('0' :: 'b' :: d :: body)
  | _, _ => scanDecimal (c :: text)

/-! ### Strings and comments -/

/-- Splits a text at its first quote that no backslash escapes, if it has one: what stands before
the quote, and what follows it. A backslash escapes the character after it. -/
def splitAtQuote? : List Char → Option (List Char × List Char)
  | [] => none
  | '"' :: rest => some ([], rest)
  | '\\' :: c :: rest =>
    (splitAtQuote? rest).map fun (content, after) => ('\\' :: c :: content, after)
  | c :: rest => (splitAtQuote? rest).map fun (content, after) => (c :: content, after)

/-- Splits a text just after the first mark that closes a comment, if it has one. -/
def splitAfterComment? : List Char → Option (List Char × List Char)
  | '*' :: '/' :: rest => some (['*', '/'], rest)
  | c :: rest => (splitAfterComment? rest).map fun (body, after) => (c :: body, after)
  | [] => none

def scanString (text : List Char) : Scan :=
  match splitAtQuote? text with
  | some (content, rest) =>
    ⟨.ok (.string (String.ofList content)), '"' :: content ++ ['"'], rest⟩
  | none => ⟨.error .unterminatedString, '"' :: text, []⟩

/-- A block comment, whose opening mark is given apart from the text. -/
def scanBlockComment (text : List Char) : Scan :=
  match splitAfterComment? text with
  | some (body, rest) => ⟨.ok .blockComment, '/' :: '*' :: body, rest⟩
  | none => ⟨.error .unterminatedBlockComment, '/' :: '*' :: text, []⟩

/-! ### Names and symbols -/

def nameToken (name : String) : Token :=
  match Keyword.ofText? name with
  | some k => .keyword k
  | none => .identifier name

def scanName (text : List Char) : Scan :=
  let name := text.takeWhile isNamePart
  ⟨.ok (nameToken (String.ofList name)), name, text.dropWhile isNamePart⟩

def scanDirective (text : List Char) : Scan :=
  match text with
  | c :: rest =>
    if isNameStart c then
      let name := (c :: rest).takeWhile isNamePart
      ⟨.ok (.directive (String.ofList name)), '#' :: name, (c :: rest).dropWhile isNamePart⟩
    else ⟨.error .invalidCharacter, ['#'], c :: rest⟩
  | [] => ⟨.error .invalidCharacter, ['#'], []⟩

def scanSymbolOne (c : Char) (text : List Char) : Scan :=
  match Symbol.ofChar? c with
  | some s => ⟨.ok (.symbol s), [c], text⟩
  | none => ⟨.error .invalidCharacter, [c], text⟩

def scanSymbolTwo (c : Char) (text : List Char) : Scan :=
  match text with
  | d :: rest =>
    match Symbol.ofPair? c d with
    | some s => ⟨.ok (.symbol s), [c, d], rest⟩
    | none => scanSymbolOne c text
  | [] => scanSymbolOne c text

def scanSymbol (c : Char) (text : List Char) : Scan :=
  match text with
  | d :: e :: rest =>
    match Symbol.ofTriple? c d e with
    | some s => ⟨.ok (.symbol s), [c, d, e], rest⟩
    | none => scanSymbolTwo c text
  | _ => scanSymbolTwo c text

def scanSlash (text : List Char) : Scan :=
  match text with
  | '/' :: rest =>
    ⟨.ok .lineComment, '/' :: '/' :: rest.takeWhile (· != '\n'), rest.dropWhile (· != '\n')⟩
  | '*' :: rest => scanBlockComment rest
  | _ => scanSymbol '/' text

def scanBlanks (text : List Char) : Scan :=
  ⟨.ok .whitespace, text.takeWhile isBlank, text.dropWhile isBlank⟩

/-! ### Words -/

/-- The longest word at the head of the text `c :: text`. A character with which no word begins is
taken alone. -/
def scan (c : Char) (text : List Char) : Scan :=
  if isBlank c then scanBlanks (c :: text)
  else if isNameStart c then scanName (c :: text)
  else if c.isDigit then scanNumber c text
  else if c = '"' then scanString text
  else if c = '#' then scanDirective text
  else if c = '/' then scanSlash text
  else scanSymbol c text

/-! ### The two parts of a scan -/

theorem splitAtQuote?_append {text content rest : List Char}
    (h : splitAtQuote? text = some (content, rest)) : content ++ '"' :: rest = text := by
  fun_induction splitAtQuote? text generalizing content rest with
  | case1 => simp at h
  | case2 r => simp_all
  | case3 c r ih =>
    obtain ⟨⟨body, after⟩, hsplit, heq⟩ := Option.map_eq_some_iff.1 h
    simp only [Prod.mk.injEq] at heq
    obtain ⟨rfl, rfl⟩ := heq
    simp [ih hsplit]
  | case4 c r _ _ ih =>
    obtain ⟨⟨body, after⟩, hsplit, heq⟩ := Option.map_eq_some_iff.1 h
    simp only [Prod.mk.injEq] at heq
    obtain ⟨rfl, rfl⟩ := heq
    simp [ih hsplit]

theorem splitAfterComment?_append {text body rest : List Char}
    (h : splitAfterComment? text = some (body, rest)) : body ++ rest = text := by
  fun_induction splitAfterComment? text generalizing body rest with
  | case1 r =>
    simp only [Option.some.injEq, Prod.mk.injEq] at h
    obtain ⟨rfl, rfl⟩ := h
    rfl
  | case2 c r _ ih =>
    obtain ⟨⟨inner, after⟩, hsplit, heq⟩ := Option.map_eq_some_iff.1 h
    simp only [Prod.mk.injEq] at heq
    obtain ⟨rfl, rfl⟩ := heq
    simp [ih hsplit]
  | case3 => simp at h

theorem scanDecimal_append (text : List Char) :
    (scanDecimal text).taken ++ (scanDecimal text).rest = text := by
  have whole := List.takeWhile_append_dropWhile (p := isDecimalPart) (l := text)
  unfold scanDecimal
  split
  · rename_i d rest hrest
    split
    · have fraction :=
        List.takeWhile_append_dropWhile (p := isDecimalPart) (l := d :: rest)
      simp only [List.append_assoc, List.cons_append, fraction]
      rw [← hrest]
      exact whole
    · simp only
      rw [← hrest]
      exact whole
  · exact whole

theorem scanMarked_append (mark : List Char) (base : Nat) (isPart : Char → Bool)
    (body : List Char) :
    (scanMarked mark base isPart body).taken ++ (scanMarked mark base isPart body).rest
      = mark ++ body := by
  simp [scanMarked, List.takeWhile_append_dropWhile]

theorem scanNumber_append (c : Char) (text : List Char) :
    (scanNumber c text).taken ++ (scanNumber c text).rest = c :: text := by
  unfold scanNumber
  split
  · split
    · simp [scanMarked_append]
    · exact scanDecimal_append _
  · split
    · simp [scanMarked_append]
    · exact scanDecimal_append _
  · exact scanDecimal_append _

theorem scanString_append (text : List Char) :
    (scanString text).taken ++ (scanString text).rest = '"' :: text := by
  unfold scanString
  split
  · rename_i content rest hsplit
    simp [← splitAtQuote?_append hsplit]
  · simp

theorem scanBlockComment_append (text : List Char) :
    (scanBlockComment text).taken ++ (scanBlockComment text).rest = '/' :: '*' :: text := by
  unfold scanBlockComment
  split
  · rename_i body rest hsplit
    simp [splitAfterComment?_append hsplit]
  · simp

theorem scanDirective_append (text : List Char) :
    (scanDirective text).taken ++ (scanDirective text).rest = '#' :: text := by
  unfold scanDirective
  split
  · split
    · simp only [List.cons_append, List.takeWhile_append_dropWhile]
    · simp
  · simp

theorem scanSymbolOne_append (c : Char) (text : List Char) :
    (scanSymbolOne c text).taken ++ (scanSymbolOne c text).rest = c :: text := by
  unfold scanSymbolOne
  split <;> rfl

theorem scanSymbolTwo_append (c : Char) (text : List Char) :
    (scanSymbolTwo c text).taken ++ (scanSymbolTwo c text).rest = c :: text := by
  unfold scanSymbolTwo
  split
  · split
    · rfl
    · exact scanSymbolOne_append ..
  · exact scanSymbolOne_append ..

theorem scanSymbol_append (c : Char) (text : List Char) :
    (scanSymbol c text).taken ++ (scanSymbol c text).rest = c :: text := by
  unfold scanSymbol
  split
  · split
    · rfl
    · exact scanSymbolTwo_append ..
  · exact scanSymbolTwo_append ..

theorem scanSlash_append (text : List Char) :
    (scanSlash text).taken ++ (scanSlash text).rest = '/' :: text := by
  unfold scanSlash
  split
  · simp [List.takeWhile_append_dropWhile]
  · exact scanBlockComment_append _
  · exact scanSymbol_append ..

/-- A scan loses nothing: what the word takes and the rest are the text. -/
theorem scan_append (c : Char) (text : List Char) :
    (scan c text).taken ++ (scan c text).rest = c :: text := by
  unfold scan
  split
  · exact List.takeWhile_append_dropWhile
  split
  · exact List.takeWhile_append_dropWhile
  split
  · exact scanNumber_append ..
  split
  · rename_i h
    subst h
    exact scanString_append _
  split
  · rename_i h
    subst h
    exact scanDirective_append _
  split
  · rename_i h
    subst h
    exact scanSlash_append _
  · exact scanSymbol_append ..

/-! ### A word is not empty -/

theorem isNamePart_of_isNameStart {c : Char} (h : isNameStart c = true) : isNamePart c = true := by
  simp only [isNameStart, isNamePart, Char.isAlphanum, Bool.or_eq_true] at *
  rcases h with h | h <;> simp [h]

theorem scanDecimal_taken_ne_nil {c : Char} (text : List Char) (h : c.isDigit = true) :
    (scanDecimal (c :: text)).taken ≠ [] := by
  have part : isDecimalPart c = true := by simp [isDecimalPart, h]
  unfold scanDecimal
  split
  · split <;> simp [part]
  · simp [part]

theorem scanNumber_taken_ne_nil {c : Char} (text : List Char) (h : c.isDigit = true) :
    (scanNumber c text).taken ≠ [] := by
  unfold scanNumber
  split
  · split
    · simp [scanMarked]
    · exact scanDecimal_taken_ne_nil _ h
  · split
    · simp [scanMarked]
    · exact scanDecimal_taken_ne_nil _ h
  · exact scanDecimal_taken_ne_nil _ h

theorem scanSymbol_taken_ne_nil (c : Char) (text : List Char) :
    (scanSymbol c text).taken ≠ [] := by
  unfold scanSymbol scanSymbolTwo scanSymbolOne
  repeat' split
  all_goals simp

theorem scanSlash_taken_ne_nil (text : List Char) : (scanSlash text).taken ≠ [] := by
  unfold scanSlash
  split
  · simp
  · unfold scanBlockComment
    split <;> simp
  · exact scanSymbol_taken_ne_nil _ _

theorem scan_taken_ne_nil (c : Char) (text : List Char) : (scan c text).taken ≠ [] := by
  unfold scan
  split
  · rename_i h
    simp [scanBlanks, h]
  split
  · rename_i h
    simp [scanName, isNamePart_of_isNameStart h]
  split
  · rename_i h
    exact scanNumber_taken_ne_nil text h
  split
  · unfold scanString
    split <;> simp
  split
  · unfold scanDirective
    split
    · split <;> simp
    · simp
  split
  · exact scanSlash_taken_ne_nil _
  · exact scanSymbol_taken_ne_nil _ _

theorem scan_rest_length_lt (c : Char) (text : List Char) :
    (scan c text).rest.length < (c :: text).length := by
  have whole := congrArg List.length (scan_append c text)
  have some := List.length_pos_iff.2 (scan_taken_ne_nil c text)
  rw [List.length_append] at whole
  omega

end JaiFrontend
