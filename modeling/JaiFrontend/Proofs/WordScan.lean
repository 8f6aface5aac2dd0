import JaiFrontend.Proofs.ClosingMark
import JaiFrontend.Proofs.PlainNames
import JaiFrontend.Proofs.WordTexts
/-!
# What is scanned at a longest word

For each rule of words: what the lexer scans at the head of a text where a word of that rule is the
longest one, and what it scans where no rule allows a word.
-/

namespace JaiFrontend

variable {part : Char → Bool} {c d : Char} {word rest text : List Char}

/-! ### Blanks and names -/

theorem scan_of_blanks (h : LongestMatch .blanks word rest) (htext : word ++ rest = c :: text) :
    scan c text = ⟨.ok .whitespace, word, rest⟩ := by
  have hrun := WordRule.mem_blanks.1 h.isMatch
  have hstop : StopsAt isBlank rest :=
    h.stopsAt .blanks fun d hd => WordRule.mem_blanks.2 (hrun.snoc hd)
  have hsplit := takeWhile_append_of_stopsAt (hrun.all fun _ hc => hc) hstop
  rw [scan, if_pos (hrun.head htext), scanBlanks, ← htext, hsplit.1, hsplit.2]

theorem scan_of_word (hrun : IsRun isNameStart isNamePart word) (hstop : StopsAt isNamePart rest)
    (htext : word ++ rest = c :: text) :
    scan c text = ⟨.ok (nameToken (String.ofList word)), word, rest⟩ := by
  have hsplit := takeWhile_append_of_stopsAt (hrun.all fun _ => isNamePart_of_isNameStart) hstop
  have hc := hrun.head htext
  have hblank := not_isBlank_of_isNameStart hc
  simp only [scan, hblank, hc, Bool.false_eq_true, if_false, if_true, scanName, ← htext, hsplit]

theorem scan_of_name (h : LongestMatch .name word rest) (htext : word ++ rest = c :: text) :
    scan c text = ⟨.ok (.identifier (String.ofList word)), word, rest⟩ := by
  have hrun := WordRule.mem_word.1 h.isMatch
  have hstop : StopsAt isNamePart rest :=
    h.stopsAt .name fun d hd => WordRule.mem_word.2 (hrun.snoc hd)
  rw [scan_of_word hrun hstop htext]
  have hplain : nameToken (String.ofList word) = .identifier (String.ofList word) := by
    unfold nameToken
    split
    · rename_i k hk
      -- A keyword of the same length would have gone before the name.
      have hword : word = k.text.toList := by
        rw [Keyword.text_of_ofText? hk, String.toList_ofList]
      exact absurd hword (h.keywordFirst rfl k)
    · rfl
  rw [hplain]

theorem Keyword.isRun (k : Keyword) : IsRun isNameStart isNamePart k.text.toList := by
  cases k <;> exact ⟨_, _, rfl, by decide, List.all_eq_true.1 (by decide)⟩

theorem scan_of_keyword {k : Keyword} (h : LongestMatch (.keyword k) word rest)
    (htext : word ++ rest = c :: text) : scan c text = ⟨.ok (.keyword k), word, rest⟩ := by
  have hword : word = k.text.toList := h.isMatch
  have hrun : IsRun isNameStart isNamePart word := hword ▸ k.isRun
  have hstop : StopsAt isNamePart rest :=
    h.stopsAt .name fun d hd => WordRule.mem_word.2 (hrun.snoc hd)
  rw [scan_of_word hrun hstop htext, hword, String.ofList_toList, nameToken_text]

theorem scan_of_directive {name : List Char} (h : LongestMatch .directive ('#' :: name) rest)
    (htext : '#' :: name ++ rest = c :: text) :
    scan c text = ⟨.ok (.directive (String.ofList name)), '#' :: name, rest⟩ := by
  obtain ⟨t, hrun, hname⟩ := WordRule.mem_directive.1 h.isMatch
  obtain rfl : name = t := List.cons.inj hname |>.2
  have hstop : StopsAt isNamePart rest := h.stopsAt .directive fun d hd =>
    WordRule.mem_directive.2 ⟨name ++ [d], hrun.snoc hd, rfl⟩
  have hsplit := takeWhile_append_of_stopsAt (hrun.all fun _ => isNamePart_of_isNameStart) hstop
  obtain ⟨rfl, hlater⟩ : '#' = c ∧ name ++ rest = text := by simpa using htext
  obtain ⟨b, later, rfl⟩ : ∃ b later, text = b :: later := by
    obtain ⟨b, t, rfl, -⟩ := hrun
    exact ⟨b, t ++ rest, hlater.symm⟩
  have hscan : scan '#' (b :: later) = scanDirective (b :: later) := rfl
  rw [hscan, scanDirective, if_pos (hrun.head hlater), ← hlater, hsplit.1, hsplit.2]

/-! ### Numerals -/

theorem digitsOf_eq (numeral : List Char) : withoutSeparators numeral = digitsOf numeral :=
  List.filter_congr fun c _ => by rw [bne, decide_not, beq_eq_decide]

theorem valueOfDigits_eq (base : Nat) (digits : List Char) :
    valueOfDigits base digits = numberOf base digits := by
  rw [valueOfDigits, numberOf, Nat.ofDigits_eq_foldr, List.foldr_map, List.foldr_reverse]
  congr 1
  funext value c
  exact (Nat.add_comm ..).trans (congrArg (digitValue c + ·) (Nat.mul_comm ..))

theorem integerReads_integerToken (base : Nat) (numeral : List Char) :
    IntegerReads base numeral (integerToken base numeral) := by
  simp only [integerToken, digitsOf_eq, valueOfDigits_eq, Bool.or_eq_true, List.isEmpty_iff,
    decide_eq_true_eq]
  split
  · rename_i h
    exact .invalid h
  · rename_i h
    push Not at h
    exact .value h.1 (UInt64.toNat_ofNat_of_lt' h.2)

theorem IntegerReads.unique {base : Nat} {numeral : List Char}
    {found found' : Except LexicalFault Token} (h : IntegerReads base numeral found)
    (h' : IntegerReads base numeral found') : found = found' := by
  cases h with
  | @value v hdigit hv =>
    have hlt := v.toNat_lt
    cases h' with
    | value _ hv' => rw [UInt64.toNat_inj.1 (hv.trans hv'.symm)]
    | invalid hno =>
      rcases hno with hno | hno
      · exact absurd hno hdigit
      · omega
  | invalid hno =>
    cases h' with
    | @value v hdigit hv =>
      have hlt := v.toNat_lt
      rcases hno with hno | hno
      · exact absurd hno hdigit
      · omega
    | invalid => rfl

theorem IntegerReads.eq {base : Nat} {numeral : List Char} {found : Except LexicalFault Token}
    (h : IntegerReads base numeral found) : integerToken base numeral = found :=
  (integerReads_integerToken base numeral).unique h

theorem scan_of_isDigit (h : c.isDigit = true) : scan c text = scanNumber c text := by
  have hc := not_isNameStart_of_isDigit h
  simp only [scan, hc, h, Bool.false_eq_true, if_false, if_true]

theorem floatToken_eq (whole places : List Char) :
    floatToken whole places = .float (Float.ofScientific
      (numberOf 10 (digitsOf whole ++ digitsOf places)) true (digitsOf places).length) := by
  simp only [floatToken, digitsOf_eq, valueOfDigits_eq]

theorem scanMarked_append_of_stopsAt {numeral : List Char} (mark : List Char) (base : Nat)
    (hrun : IsRun part part numeral) (hstop : StopsAt part rest) :
    scanMarked mark base part (numeral ++ rest) =
      ⟨integerToken base numeral, mark ++ numeral, rest⟩ := by
  have hsplit := takeWhile_append_of_stopsAt (hrun.all fun _ hc => hc) hstop
  rw [scanMarked, hsplit.1, hsplit.2]

/-- Both base marks are read alike. -/
theorem scan_of_marked {mark : Char} {base : Nat} {rule : WordRule} {numeral : List Char}
    (htexts : ∀ w, w ∈ rule.texts ↔ ∃ t, IsRun part part t ∧ w = '0' :: mark :: t)
    (hscan : ∀ d later, part d = true →
      scan '0' (mark :: d :: later) = scanMarked ['0', mark] base part (d :: later))
    (h : LongestMatch rule ('0' :: mark :: numeral) rest)
    (htext : '0' :: mark :: numeral ++ rest = c :: text) :
    scan c text = ⟨integerToken base numeral, '0' :: mark :: numeral, rest⟩ := by
  obtain ⟨t, hrun, hword⟩ := (htexts _).1 h.isMatch
  obtain rfl : numeral = t := by simpa using hword
  have hstop : StopsAt part rest := h.stopsAt rule fun d hd =>
    (htexts _).2 ⟨numeral ++ [d], hrun.snoc hd, rfl⟩
  have hmarked := scanMarked_append_of_stopsAt ['0', mark] base hrun hstop
  obtain ⟨rfl, rfl⟩ : '0' = c ∧ mark :: numeral ++ rest = text := by simpa using htext
  obtain ⟨d, t, rfl, hd, -⟩ := hrun
  rw [List.cons_append, List.cons_append, hscan d _ hd, ← List.cons_append, hmarked]
  rfl

theorem scan_of_hexadecimal {numeral : List Char}
    (h : LongestMatch .hexadecimal ('0' :: 'x' :: numeral) rest)
    (htext : '0' :: 'x' :: numeral ++ rest = c :: text) :
    scan c text = ⟨integerToken 16 numeral, '0' :: 'x' :: numeral, rest⟩ := by
  refine scan_of_marked (fun w => WordRule.mem_hexadecimal) (fun d later hd => ?_) h htext
  have hscan : scan '0' ('x' :: d :: later) =
      if isHexPart d then scanMarked ['0', 'x'] 16 isHexPart (d :: later)
      else scanDecimal ('0' :: 'x' :: d :: later) := rfl
  rw [hscan, if_pos hd]

theorem scan_of_binary {numeral : List Char}
    (h : LongestMatch .binary ('0' :: 'b' :: numeral) rest)
    (htext : '0' :: 'b' :: numeral ++ rest = c :: text) :
    scan c text = ⟨integerToken 2 numeral, '0' :: 'b' :: numeral, rest⟩ := by
  refine scan_of_marked (fun w => WordRule.mem_binary) (fun d later hd => ?_) h htext
  have hscan : scan '0' ('b' :: d :: later) =
      if isBinaryPart d then scanMarked ['0', 'b'] 2 isBinaryPart (d :: later)
      else scanDecimal ('0' :: 'b' :: d :: later) := rfl
  rw [hscan, if_pos hd]

theorem isDecimalPart_of_isDigit (h : c.isDigit = true) : isDecimalPart c = true := by
  simp [isDecimalPart, h]

theorem IsRun.eq_single (h : IsRun Char.isDigit isDecimalPart word)
    (htext : word ++ rest = c :: d :: text) (hd : isDecimalPart d = false) :
    word = [c] ∧ rest = d :: text := by
  obtain ⟨b, t, rfl, -, ht⟩ := h
  cases t with
  | nil => simpa using htext
  | cons e t =>
    have he : e = d := by
      simp only [List.cons_append, List.cons.injEq] at htext
      exact htext.2.1
    have hpart := ht e List.mem_cons_self
    rw [he, hd] at hpart
    exact absurd hpart (by simp)

/-- A numeral is read without a base mark unless it is a zero with a mark and a digit behind. -/
theorem scan_of_numeral (hrun : IsRun Char.isDigit isDecimalPart word)
    (htext : word ++ rest = c :: text)
    (hhex : ∀ d later, word = ['0'] → rest = 'x' :: d :: later → isHexPart d = false)
    (hbinary : ∀ d later, word = ['0'] → rest = 'b' :: d :: later → isBinaryPart d = false) :
    scan c text = scanDecimal (word ++ rest) := by
  rw [scan_of_isDigit (hrun.head htext), htext]
  unfold scanNumber
  split
  · rename_i d body
    obtain ⟨hword, hrest⟩ := hrun.eq_single htext (by decide)
    rw [if_neg (Bool.eq_false_iff.1 (hhex d body hword hrest))]
  · rename_i d body
    obtain ⟨hword, hrest⟩ := hrun.eq_single htext (by decide)
    rw [if_neg (Bool.eq_false_iff.1 (hbinary d body hword hrest))]
  · rfl

theorem scan_of_decimal (h : LongestMatch .decimal word rest) (htext : word ++ rest = c :: text) :
    scan c text = ⟨integerToken 10 word, word, rest⟩ := by
  have hrun := WordRule.mem_numeral.1 h.isMatch
  have hstop : StopsAt isDecimalPart rest :=
    h.stopsAt .decimal fun d hd => WordRule.mem_numeral.2 (hrun.snoc hd)
  have hsplit := takeWhile_append_of_stopsAt (hrun.all fun _ => isDecimalPart_of_isDigit) hstop
  -- A base mark or a point with a digit behind it would make a longer word.
  have hhex : ∀ d later, word = ['0'] → rest = 'x' :: d :: later → isHexPart d = false := by
    rintro d later rfl rfl
    by_contra hd
    have hlong := h.longest .hexadecimal ['0', 'x', d] later rfl
      (WordRule.mem_hexadecimal.2 ⟨[d], .single (by simpa using hd), rfl⟩)
    simp at hlong
  have hbinary : ∀ d later, word = ['0'] → rest = 'b' :: d :: later → isBinaryPart d = false := by
    rintro d later rfl rfl
    by_contra hd
    have hlong := h.longest .binary ['0', 'b', d] later rfl
      (WordRule.mem_binary.2 ⟨[d], .single (by simpa using hd), rfl⟩)
    simp at hlong
  have hpoint : ∀ d later, rest = '.' :: d :: later → d.isDigit = false := by
    rintro d later rfl
    by_contra hd
    have hlong := h.longest .fraction (word ++ ['.', d]) later (by simp)
      (WordRule.mem_fraction.2 ⟨word, h.isMatch, [d],
        WordRule.mem_numeral.2 (.single (by simpa using hd)), rfl⟩)
    simp at hlong
  rw [scan_of_numeral hrun htext hhex hbinary, scanDecimal, hsplit.1, hsplit.2]
  split
  · rename_i d later
    rw [if_neg (Bool.eq_false_iff.1 (hpoint d later rfl))]
  · rfl

theorem scan_of_fraction {whole places : List Char} (hwhole : whole ∈ WordRule.numeral)
    (hplaces : places ∈ WordRule.numeral)
    (h : LongestMatch .fraction (whole ++ '.' :: places) rest)
    (htext : whole ++ '.' :: places ++ rest = c :: text) :
    scan c text = ⟨.ok (floatToken whole places), whole ++ '.' :: places, rest⟩ := by
  have hrun := WordRule.mem_numeral.1 hwhole
  have hrunPlaces := WordRule.mem_numeral.1 hplaces
  have hstop : StopsAt isDecimalPart rest := h.stopsAt .fraction fun d hd =>
    WordRule.mem_fraction.2
      ⟨whole, hwhole, places ++ [d], WordRule.mem_numeral.2 (hrunPlaces.snoc hd), by simp⟩
  have hpoint : StopsAt isDecimalPart ('.' :: (places ++ rest)) := by
    intro d hd
    obtain rfl : '.' = d := by simpa using hd
    decide
  have hsplit := takeWhile_append_of_stopsAt (hrun.all fun _ => isDecimalPart_of_isDigit) hpoint
  have hsplitPlaces :=
    takeWhile_append_of_stopsAt (hrunPlaces.all fun _ => isDecimalPart_of_isDigit) hstop
  rw [List.append_assoc, List.cons_append] at htext
  rw [scan_of_numeral hrun htext (by simp) (by simp), scanDecimal, hsplit.1, hsplit.2]
  obtain ⟨d, t, rfl, hd, -⟩ := hrunPlaces
  simp only [List.cons_append] at hsplitPlaces ⊢
  simp only [hd, if_true, hsplitPlaces]

/-! ### Strings and comments -/

theorem scan_of_quote {body after : List Char} (hword : word ∈ WordRule.quote.texts)
    (hcloses : ClosesFirst ['"'] Unescaped rest body after) (htext : word ++ rest = c :: text) :
    scan c text = ⟨.ok (.string (String.ofList body)), word ++ (body ++ ['"']), after⟩ := by
  obtain rfl : word = ['"'] := hword
  obtain ⟨rfl, rfl⟩ : '"' = c ∧ rest = text := by simpa using htext
  have hsplit := (closesAt_splitAtQuote? rest).eq_some hcloses
  have hscan : scan '"' rest = scanString rest := rfl
  rw [hscan, scanString, hsplit]
  rfl

theorem scan_of_open_quote (hword : word ∈ WordRule.quote.texts)
    (hnever : NeverCloses ['"'] Unescaped rest) (htext : word ++ rest = c :: text) :
    scan c text = ⟨.error .unterminatedString, word ++ rest, []⟩ := by
  obtain rfl : word = ['"'] := hword
  obtain ⟨rfl, rfl⟩ : '"' = c ∧ rest = text := by simpa using htext
  have hsplit := (closesAt_splitAtQuote? rest).eq_none hnever
  have hscan : scan '"' rest = scanString rest := rfl
  rw [hscan, scanString, hsplit]
  rfl

theorem scan_of_comment {body after : List Char} (hword : word ∈ WordRule.commentOpener.texts)
    (hcloses : ClosesFirst ['*', '/'] (fun _ => True) rest body after)
    (htext : word ++ rest = c :: text) :
    scan c text = ⟨.ok .blockComment, word ++ (body ++ ['*', '/']), after⟩ := by
  obtain rfl : word = ['/', '*'] := hword
  obtain ⟨rfl, rfl⟩ : '/' = c ∧ '*' :: rest = text := by simpa using htext
  obtain ⟨found, hfound, hsplit⟩ := closesAt_splitAfterComment? rest
  rw [hfound.eq_some hcloses] at hsplit
  have hscan : scan '/' ('*' :: rest) = scanBlockComment rest := rfl
  rw [hscan, scanBlockComment, hsplit]
  rfl

theorem scan_of_open_comment (hword : word ∈ WordRule.commentOpener.texts)
    (hnever : NeverCloses ['*', '/'] (fun _ => True) rest) (htext : word ++ rest = c :: text) :
    scan c text = ⟨.error .unterminatedBlockComment, word ++ rest, []⟩ := by
  obtain rfl : word = ['/', '*'] := hword
  obtain ⟨rfl, rfl⟩ : '/' = c ∧ '*' :: rest = text := by simpa using htext
  obtain ⟨found, hfound, hsplit⟩ := closesAt_splitAfterComment? rest
  rw [hfound.eq_none hnever] at hsplit
  have hscan : scan '/' ('*' :: rest) = scanBlockComment rest := rfl
  rw [hscan, scanBlockComment, hsplit]
  rfl

theorem scan_of_lineComment (h : LongestMatch .lineComment word rest)
    (htext : word ++ rest = c :: text) : scan c text = ⟨.ok .lineComment, word, rest⟩ := by
  obtain ⟨t, ht, rfl⟩ := WordRule.mem_lineComment.1 h.isMatch
  have hline : ∀ d ∈ t, (d != '\n') = true := fun d hd => bne_iff_ne.2 (ht d hd)
  have hstop : StopsAt (· != '\n') rest := h.stopsAt .lineComment fun d hd => by
    refine WordRule.mem_lineComment.2 ⟨t ++ [d], fun e he => ?_, rfl⟩
    rcases List.mem_append.1 he with he | he
    · exact ht e he
    · rw [List.mem_singleton.1 he]
      exact bne_iff_ne.1 hd
  have hsplit := takeWhile_append_of_stopsAt hline hstop
  obtain ⟨rfl, rfl⟩ : '/' = c ∧ '/' :: t ++ rest = text := by simpa using htext
  have hscan : scan '/' ('/' :: t ++ rest) =
      ⟨.ok .lineComment, '/' :: '/' :: (t ++ rest).takeWhile (· != '\n'),
        (t ++ rest).dropWhile (· != '\n')⟩ := rfl
  rw [hscan, hsplit.1, hsplit.2]

/-! ### Symbols -/

theorem Symbol.text_cases (s : Symbol) :
    (∃ c, s.text.toList = [c] ∧ ofChar? c = some s) ∨
    (∃ c d, s.text.toList = [c, d] ∧ ofPair? c d = some s) ∨
    ∃ c d e, s.text.toList = [c, d, e] ∧ ofTriple? c d e = some s := by
  cases s <;> first
    | exact .inl ⟨_, rfl, rfl⟩
    | exact .inr (.inl ⟨_, _, rfl, rfl⟩)
    | exact .inr (.inr ⟨_, _, _, rfl, rfl⟩)

theorem Symbol.text_of_ofChar? {s : Symbol} (h : ofChar? c = some s) : s.text.toList = [c] := by
  unfold ofChar? at h
  split at h <;> cases h <;> rfl

theorem Symbol.text_of_ofPair? {s : Symbol} (h : ofPair? c d = some s) :
    s.text.toList = [c, d] := by
  unfold ofPair? at h
  split at h <;> cases h <;> rfl

theorem Symbol.text_of_ofTriple? {e : Char} {s : Symbol} (h : ofTriple? c d e = some s) :
    s.text.toList = [c, d, e] := by
  unfold ofTriple? at h
  split at h
  · cases h
    rfl
  · cases h

theorem scanSymbol_eq_two {d : Char} (hthree : ∀ e later, rest = e :: later →
    Symbol.ofTriple? c d e = none) : scanSymbol c (d :: rest) = scanSymbolTwo c (d :: rest) := by
  unfold scanSymbol
  split
  · rename_i heq
    obtain ⟨rfl, rfl⟩ := List.cons.inj heq
    rw [hthree _ _ rfl]
  · rfl

theorem scanSymbol_eq_one
    (hthree : ∀ d e later, text = d :: e :: later → Symbol.ofTriple? c d e = none)
    (htwo : ∀ d later, text = d :: later → Symbol.ofPair? c d = none) :
    scanSymbol c text = scanSymbolOne c text := by
  cases text with
  | nil => rfl
  | cons d rest =>
    rw [scanSymbol_eq_two fun e later he => hthree d e later (he ▸ rfl), scanSymbolTwo,
      htwo d rest rfl]

/-- A character with which a symbol begins begins no other word, a slash apart. -/
theorem scan_of_symbol_head {s : Symbol} (hc : c ∈ s.text.toList.head?) :
    scan c text = if c = '/' then scanSlash text else scanSymbol c text := by
  cases s <;> cases hc <;> rfl

/-- Where a symbol is the longest word, a slash opens no comment. -/
theorem scanSlash_of_symbol {s : Symbol} (h : LongestMatch (.symbol s) word rest)
    (htext : word ++ rest = '/' :: text) : scanSlash text = scanSymbol '/' text := by
  have hword : word = s.text.toList := h.isMatch
  have hshort : ∀ d later, text = d :: later → 2 ≤ word.length →
      Symbol.ofPair? '/' d ≠ none ∨ ∃ e, Symbol.ofTriple? '/' d e ≠ none := by
    rintro d later rfl hlength
    rcases s.text_cases with ⟨a, ha, -⟩ | ⟨a, b, hab, hs⟩ | ⟨a, b, e, habe, hs⟩
    · rw [hword, ha] at hlength
      simp at hlength
    · rw [hword, hab] at htext
      obtain ⟨rfl, rfl, -⟩ : a = '/' ∧ b = d ∧ rest = later := by simpa using htext
      exact .inl (by simp [hs])
    · rw [hword, habe] at htext
      obtain ⟨rfl, rfl, -⟩ : a = '/' ∧ b = d ∧ e :: rest = later := by simpa using htext
      exact .inr ⟨e, by simp [hs]⟩
  unfold scanSlash
  split
  · rename_i later
    have hlong := h.longest .lineComment ['/', '/'] later htext.symm
      (WordRule.mem_lineComment.2 ⟨[], by simp, rfl⟩)
    rcases hshort '/' later rfl hlong with hpair | ⟨e, htriple⟩
    · exact absurd rfl hpair
    · exact absurd rfl htriple
  · rename_i later
    have hlong := h.longest .commentOpener ['/', '*'] later htext.symm rfl
    rcases hshort '*' later rfl hlong with hpair | ⟨e, htriple⟩
    · exact absurd rfl hpair
    · exact absurd rfl htriple
  · rfl

theorem scan_of_symbol {s : Symbol} (h : LongestMatch (.symbol s) word rest)
    (htext : word ++ rest = c :: text) : scan c text = ⟨.ok (.symbol s), word, rest⟩ := by
  have hword : word = s.text.toList := h.isMatch
  have hscan : scan c text = scanSymbol c text := by
    have hhead : c ∈ s.text.toList.head? := by
      rcases s.text_cases with ⟨a, ha, -⟩ | ⟨a, b, ha, -⟩ | ⟨a, b, e, ha, -⟩ <;>
        · rw [hword, ha] at htext
          simp [ha, (List.cons.inj htext).1]
    rw [scan_of_symbol_head hhead]
    split
    · rename_i hc
      subst hc
      exact scanSlash_of_symbol h htext
    · rfl
  -- A symbol with the same beginning that is spelled in more characters would be longer.
  have hthree : ∀ d e later, text = d :: e :: later → word.length < 3 →
      Symbol.ofTriple? c d e = none := by
    rintro d e later rfl hlength
    by_contra hsome
    obtain ⟨s', hs'⟩ := Option.ne_none_iff_exists'.1 hsome
    have hlong := h.longest (.symbol s') [c, d, e] later htext.symm
      (Symbol.text_of_ofTriple? hs').symm
    simp only [List.length_cons, List.length_nil] at hlong
    omega
  have htwo : ∀ d later, text = d :: later → word.length < 2 → Symbol.ofPair? c d = none := by
    rintro d later rfl hlength
    by_contra hsome
    obtain ⟨s', hs'⟩ := Option.ne_none_iff_exists'.1 hsome
    have hlong := h.longest (.symbol s') [c, d] later htext.symm (Symbol.text_of_ofPair? hs').symm
    simp only [List.length_cons, List.length_nil] at hlong
    omega
  rw [hscan]
  rcases s.text_cases with ⟨a, ha, hs⟩ | ⟨a, b, ha, hs⟩ | ⟨a, b, e, ha, hs⟩
  · obtain rfl := hword.trans ha
    obtain ⟨rfl, rfl⟩ : a = c ∧ rest = text := by simpa using htext
    rw [scanSymbol_eq_one (fun d e later he => hthree d e later he (by simp))
      (fun d later he => htwo d later he (by simp)), scanSymbolOne, hs]
  · obtain rfl := hword.trans ha
    obtain ⟨rfl, rfl⟩ : a = c ∧ b :: rest = text := by simpa using htext
    rw [scanSymbol_eq_two fun e later he => hthree b e later (he ▸ rfl) (by simp), scanSymbolTwo,
      hs]
  · obtain rfl := hword.trans ha
    obtain ⟨rfl, rfl⟩ : a = c ∧ b :: e :: rest = text := by simpa using htext
    rw [scanSymbol, hs]

theorem WordRule.ne_nil {rule : WordRule} {word : List Char} (h : word ∈ rule.texts) :
    word ≠ [] := by
  cases rule with
  | blanks => exact (mem_blanks.1 h).ne_nil
  | lineComment =>
    obtain ⟨t, -, rfl⟩ := mem_lineComment.1 h
    simp
  | keyword k =>
    obtain rfl := h
    exact k.isRun.ne_nil
  | name => exact (mem_word.1 h).ne_nil
  | decimal => exact (mem_numeral.1 h).ne_nil
  | fraction =>
    obtain ⟨whole, -, places, -, rfl⟩ := mem_fraction.1 h
    simp
  | directive | hexadecimal | binary =>
    obtain ⟨t, -, rfl⟩ := mem_spelled_mul.1 h
    simp
  | commentOpener | quote =>
    obtain rfl := h
    simp
  | symbol s =>
    obtain rfl := h
    rcases s.text_cases with ⟨_, hs, -⟩ | ⟨_, _, hs, -⟩ | ⟨_, _, _, hs, -⟩ <;> simp [hs]

/-! ### No word -/

theorem scan_of_noWord
    (h : ∀ rule word rest, word ++ rest = c :: text → word ∉ WordRule.texts rule) :
    scan c text = ⟨.error .invalidCharacter, [c], text⟩ := by
  have hone : ∀ rule, [c] ∉ WordRule.texts rule := fun rule => h rule [c] text rfl
  have hblank : ¬isBlank c = true := fun hc => hone .blanks (WordRule.mem_blanks.2 (.single hc))
  have hname : ¬isNameStart c = true := fun hc => hone .name (WordRule.mem_word.2 (.single hc))
  have hdigit : ¬c.isDigit = true := fun hc => hone .decimal (WordRule.mem_numeral.2 (.single hc))
  have hquote : c ≠ '"' := fun hc => hone .quote (hc ▸ rfl)
  have hslash : c ≠ '/' := fun hc => hone (.symbol .slash) (hc ▸ rfl)
  rw [scan, if_neg hblank, if_neg hname, if_neg hdigit, if_neg hquote]
  by_cases hhash : c = '#'
  · subst hhash
    rw [if_pos rfl]
    cases text with
    | nil => rfl
    | cons d later =>
      have hd : ¬isNameStart d = true := fun hd => h .directive ['#', d] later rfl
        (WordRule.mem_directive.2 ⟨[d], .single hd, rfl⟩)
      rw [scanDirective, if_neg hd]
  · have hthree : ∀ d e later, text = d :: e :: later → Symbol.ofTriple? c d e = none := by
      rintro d e later rfl
      by_contra hsome
      obtain ⟨s, hs⟩ := Option.ne_none_iff_exists'.1 hsome
      exact h (.symbol s) [c, d, e] later rfl (Symbol.text_of_ofTriple? hs).symm
    have htwo : ∀ d later, text = d :: later → Symbol.ofPair? c d = none := by
      rintro d later rfl
      by_contra hsome
      obtain ⟨s, hs⟩ := Option.ne_none_iff_exists'.1 hsome
      exact h (.symbol s) [c, d] later rfl (Symbol.text_of_ofPair? hs).symm
    have hchar : Symbol.ofChar? c = none := by
      by_contra hsome
      obtain ⟨s, hs⟩ := Option.ne_none_iff_exists'.1 hsome
      exact hone (.symbol s) (Symbol.text_of_ofChar? hs).symm
    rw [if_neg hhash, if_neg hslash, scanSymbol_eq_one hthree htwo, scanSymbolOne, hchar]

end JaiFrontend
