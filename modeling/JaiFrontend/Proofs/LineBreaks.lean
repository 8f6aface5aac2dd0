import JaiFrontend.Proofs.LongestMatch
import JaiFrontend.Proofs.MissingSemicolon
import JaiFrontend.Proofs.Seam
/-!
# Line breaks between words

The parser goes on with a word that stands on a later line than the word before it begins on. That
is the case where a line ends between the two words, or within the first of them; the only word that
a line can end within is a string. So nothing is passed over behind a string over several lines,
even where its last line goes on.
-/

namespace JaiFrontend

open ParserState

variable {word text : List Char} {c : Char} {token : Token}

/-! ### Words of one line -/

theorem IsRun.line_feed_not_mem {first part : Char → Bool} (h : IsRun first part word)
    (hfirst : first '\n' = false) (hpart : part '\n' = false) : '\n' ∉ word := by
  obtain ⟨c, t, rfl, hc, ht⟩ := h
  intro hmem
  rcases List.mem_cons.1 hmem with rfl | hmem
  · simp [hfirst] at hc
  · simpa [hpart] using ht _ hmem

/-- Of the rules, only that of blanks allows a line feed. -/
theorem WordRule.line_feed_not_mem {rule : WordRule} (h : word ∈ rule.texts)
    (hrule : rule ≠ .blanks) : '\n' ∉ word := by
  cases rule with
  | blanks => exact absurd rfl hrule
  | lineComment =>
    obtain ⟨t, ht, rfl⟩ := mem_lineComment.1 h
    simpa using fun hmem => ht _ hmem rfl
  | commentOpener =>
    obtain rfl : word = "/*".toList := h
    decide
  | keyword k =>
    obtain rfl : word = k.text.toList := h
    exact k.isRun.line_feed_not_mem rfl rfl
  | name => exact (mem_word.1 h).line_feed_not_mem rfl rfl
  | directive =>
    obtain ⟨t, ht, rfl⟩ := mem_directive.1 h
    simpa using ht.line_feed_not_mem rfl rfl
  | decimal => exact (mem_numeral.1 h).line_feed_not_mem rfl rfl
  | hexadecimal =>
    obtain ⟨t, ht, rfl⟩ := mem_hexadecimal.1 h
    simpa using ht.line_feed_not_mem rfl rfl
  | binary =>
    obtain ⟨t, ht, rfl⟩ := mem_binary.1 h
    simpa using ht.line_feed_not_mem rfl rfl
  | fraction =>
    obtain ⟨whole, hwhole, places, hplaces, rfl⟩ := mem_fraction.1 h
    have hbefore := (mem_numeral.1 hwhole).line_feed_not_mem rfl rfl
    have hbehind := (mem_numeral.1 hplaces).line_feed_not_mem rfl rfl
    simp [hbefore, hbehind]
  | quote =>
    obtain rfl : word = "\"".toList := h
    decide
  | symbol s =>
    obtain rfl : word = s.text.toList := h
    cases s <;> decide

/-- A string with a line feed in it. -/
def Token.IsManyLined (t : Token) : Prop := ∃ content, t = .string content ∧ '\n' ∈ content.toList

theorem line_feed_mem_taken_iff (h : (scan c text).found = .ok token)
    (htoken : token.isTrivia = false) : '\n' ∈ (scan c text).taken ↔ token.IsManyLined := by
  have hbegins : Begins (c :: text) (scan c text) := begins_iff.2 rfl
  generalize scan c text = s at h hbegins ⊢
  generalize c :: text = whole at hbegins
  cases hbegins with
  | stray => cases h
  | @word rule word rest _ hlongest hmakes =>
    have hword : rule ≠ .blanks → '\n' ∉ word := WordRule.line_feed_not_mem hlongest.isMatch
    have hplain : ∀ {t : Token}, (∀ content, t ≠ .string content) → ¬ t.IsManyLined := by
      rintro t hnone ⟨content, rfl, -⟩
      exact hnone content rfl
    cases hmakes with
    | blanks | lineComment | blockComment =>
      cases h
      cases htoken
    | string =>
      cases h
      simp [Token.IsManyLined, hword (by simp)]
    | keyword | name | directive | fraction | symbol =>
      cases h
      exact iff_of_false (hword (by simp)) (hplain (by simp))
    | decimal reads | hexadecimal reads | binary reads =>
      subst h
      cases reads
      exact iff_of_false (hword (by simp)) (hplain (by simp))
    | openComment | openString => cases h

/-! ### From one word to the next -/

namespace Lexed

variable {source : String} {row between later : List Lexeme} {l m : Lexeme}

theorem line_feed_mem_text_iff (hl : l ∈ (ofString source).lexemes)
    (hsignificant : isSignificant l = true) : '\n' ∈ l.text.toList ↔ l.token.IsManyLined := by
  obtain ⟨row, later, hsplit⟩ := List.append_of_mem hl
  obtain ⟨lexer, c, text, rfl, -⟩ := lexeme_scanned hsplit
  simp only [isSignificant, Bool.and_eq_true, bne_iff_ne, Bool.not_eq_true'] at hsignificant
  rw [Lexer.text_lexeme]
  cases hfound : (scan c text).found with
  | ok token =>
    have htoken : (lexer.lexeme (scan c text)).token = token := by rw [Lexer.lexeme, hfound]
    rw [htoken] at hsignificant ⊢
    exact line_feed_mem_taken_iff hfound hsignificant.1
  | error fault =>
    refine absurd ?_ hsignificant.2
    rw [Lexer.lexeme, hfound]

/-- Of two words, the second one stands on a later line than the first one begins on if a line ends
in the first one or between the two. -/
theorem line_lt_iff (h : (ofString source).lexemes = row ++ l :: (between ++ m :: later)) :
    l.position.line < m.position.line ↔ '\n' ∈ l.text.toList ∨ '\n' ∈ rowText between := by
  have hm : (ofString source).lexemes = (row ++ l :: between) ++ m :: later := by simp [h]
  have htext : rowText (row ++ l :: between) =
      rowText row ++ (l.text.toList ++ rowText between) := by
    simp [rowText]
  rw [(place_eq hm).1, htext, Position.advanceAll_append, ← (place_eq h).1,
    Position.advanceAll_line_count, List.count_append, ← List.count_pos_iff, ← List.count_pos_iff]
  omega

theorem cuts_between (h : (ofString source).lexemes = row ++ l :: (between ++ m :: later)) :
    Span.Cuts ⟨l.span.stop, m.span.start⟩ source (String.ofList (rowText between)) := by
  have hm : (ofString source).lexemes = (row ++ l :: between) ++ m :: later := by simp [h]
  obtain ⟨-, c, text, -, hsource, -⟩ := lexeme_scanned hm
  have htext : rowText (row ++ l :: between) = rowText (row ++ [l]) ++ rowText between := by
    simp [rowText]
  have hparts : source = String.ofList (rowText (row ++ [l])) ++
      (String.ofList (rowText between) ++ String.ofList (c :: text)) := by
    rw [← String.toList_inj, hsource, htext]
    simp
  have hcuts := Span.cuts_of_append hparts
  rw [utf8ByteSize_ofList, utf8ByteSize_ofList, ← byteLength_append, ← htext] at hcuts
  rw [(place_eq h).2, (place_eq hm).2]
  exact hcuts

end Lexed

namespace ParserState

variable {source : String} {s start : ParserState} {previous current : Lexeme}
  {before later : List Lexeme} {failure : Failure}

/-- The words on both sides of the parser's place, among the lexemes of the text. -/
theorem exists_between (hs : s.lexemes = (ofSource source).lexemes)
    (hconsumed : s.consumed = previous :: before) (hrest : s.rest = current :: later) :
    isSignificant previous = true ∧ ∃ row between behind,
      (Lexed.ofString source).lexemes = row ++ previous :: (between ++ current :: behind) := by
  rw [ofSource, lexemes_ofLexemes, ParserState.lexemes, hconsumed, hrest, List.reverse_cons,
    List.append_assoc, List.singleton_append] at hs
  obtain ⟨row, tail, hsplit, -, htail⟩ := List.filter_eq_append_iff.1 hs.symm
  obtain ⟨skipped, tail', rfl, -, hprevious, htail'⟩ := List.filter_eq_cons_iff.1 htail
  obtain ⟨between, behind, rfl, -, -, -⟩ := List.filter_eq_cons_iff.1 htail'
  exact ⟨hprevious, row ++ skipped, between, behind, by simp [hsplit]⟩

/-- The current word stands on a later line, as the parser sees it, if a line ends between it and
the word before it, or if that word is a string over several lines. -/
theorem isOnLaterLine_iff (hs : s.lexemes = (ofSource source).lexemes)
    (hconsumed : s.consumed = previous :: before) (hrest : s.rest = current :: later) :
    ∃ gap : String, Span.Cuts ⟨previous.span.stop, current.span.start⟩ source gap ∧
      (s.isOnLaterLine = true ↔ '\n' ∈ gap.toList ∨ previous.token.IsManyLined) := by
  obtain ⟨hsignificant, row, between, behind, hsplit⟩ := exists_between hs hconsumed hrest
  refine ⟨String.ofList (rowText between), Lexed.cuts_between hsplit, ?_⟩
  have hmem : previous ∈ (Lexed.ofString source).lexemes := by simp [hsplit]
  rw [String.toList_ofList, ← Lexed.line_feed_mem_text_iff hmem hsignificant, or_comm,
    ← Lexed.line_lt_iff hsplit, isOnLaterLine, hconsumed, hrest, decide_eq_true_iff]

/-- Nothing is passed over only where a semicolon is missing at the end of a line, or behind a
string over several lines. -/
theorem line_break_of_recover_stays (hs : s.lexemes = (ofSource source).lexemes)
    (hleft : s.rest ≠ [])
    (hhead : s.isOutermost = true ∨ ∀ l ∈ s.rest.head?, l.token ≠ .symbol .rightBrace)
    (hend : ∀ expected, failure.problem ≠ .endOfInput expected)
    (hstays : (s.recover failure start).rest = s.rest) :
    failure.problem = .missing .semicolon ∧ ∃ previous before current later,
      s.consumed = previous :: before ∧ s.rest = current :: later ∧
      ∃ gap : String, Span.Cuts ⟨previous.span.stop, current.span.start⟩ source gap ∧
        ('\n' ∈ gap.toList ∨ previous.token.IsManyLined) := by
  have hnotLess : ¬ (s.recover failure start).rest.length < s.rest.length := by
    rw [hstays]
    exact Nat.lt_irrefl _
  have hlacks := (recover_lt_or_stays start hleft hhead hend).resolve_left hnotLess
  have hboth := hlacks.line
  unfold isOnLaterLine at hboth
  split at hboth
  · rename_i previous before current later hconsumed hrest
    obtain ⟨gap, hcuts, hiff⟩ := isOnLaterLine_iff hs hconsumed hrest
    exact ⟨hlacks.missing, previous, before, current, later, hconsumed, hrest, gap, hcuts,
      hiff.1 hlacks.line⟩
  · cases hboth

/-- The words on both sides of a place behind so many tokens. -/
theorem exists_around {front behind : List Token} {t u : Token}
    (htokens : s.tokens = front ++ t :: u :: behind) : ∃ previous before current later,
      previous.token = t ∧ (s.advanceBy (front.length + 1)).consumed = previous :: before ∧
        (s.advanceBy (front.length + 1)).rest = current :: later := by
  obtain ⟨passed, tail, hrest, rfl, htail⟩ := List.map_eq_append_iff.1 htokens
  obtain ⟨previous, tail', rfl, hprevious, htail'⟩ := List.map_eq_cons_iff.1 htail
  obtain ⟨current, later, rfl, -, -⟩ := List.map_eq_cons_iff.1 htail'
  refine ⟨previous, passed.reverse ++ s.consumed, current, later, hprevious, ?_, ?_⟩
  · simp [advanceBy, hrest, List.take_append]
  · simp [advanceBy, hrest, List.drop_append]

end ParserState

namespace Parser

variable {source content : String} {s : ParserState} {inner : TreeParsers}
  {row later : List Token} {t : Token}

/-- Behind a statement that lacks its semicolon and ends with a string over several lines, nothing
is passed over, wherever the next word stands: on the last line of the string, too. -/
theorem recovering_behind_manyLined (hs : s.lexemes = (ofSource source).lexemes)
    (hrow : Unfinished row) (hlast : row.getLast? = some (.string content))
    (hcontent : '\n' ∈ content.toList) (ht : t.beginsStatement = true)
    (htokens : s.tokens = row ++ t :: later) :
    recovering (statement inner) s =
      .ok none ((s.advanceBy row.length).note
        ⟨.missing .semicolon, .point (s.advanceBy row.length).previousStop⟩ .recovered) := by
  refine recovering_unfinished hrow ht htokens ?_
  obtain ⟨front, rfl⟩ := List.getLast?_eq_some_iff.1 hlast
  rw [List.append_assoc, List.singleton_append] at htokens
  obtain ⟨previous, before, current, behind, hprevious, hconsumed, hrest⟩ := exists_around htokens
  rw [List.length_append, List.length_singleton]
  obtain ⟨gap, -, hiff⟩ := isOnLaterLine_iff (by rw [lexemes_advanceBy, hs]) hconsumed hrest
  exact hiff.2 (.inr ⟨content, hprevious, hcontent⟩)

/-- The name stands on the line on which the string ends. -/
example : ((ofSource "x = \"a\nb\" y").advanceBy 3).isOnLaterLine = true := by decide +kernel

end Parser

end JaiFrontend
