import JaiFrontend.Proofs.Lexemes
import JaiFrontend.Proofs.Passing
/-!
# Identifiers are no keywords

The lexer makes a keyword of every name that is one. So a name tells which token it was written as,
after a dot too, where the grammar takes both kinds of token.
-/

namespace JaiFrontend

/-- A token that is an identifier is no keyword. -/
def Token.IsPlain : Token → Prop
  | .identifier name => nameToken name = .identifier name
  | _ => True

theorem nameToken_isPlain (name : String) : (nameToken name).IsPlain := by
  cases h : nameToken name with
  | identifier other =>
    have hother : other = name := by
      unfold nameToken at h
      split at h
      · simp at h
      · exact (Token.identifier.inj h).symm
    rw [Token.IsPlain, hother, ← hother, ← h, hother]
  | _ => trivial

theorem nameToken_text (k : Keyword) : nameToken k.text = .keyword k := by
  cases k <;> decide

theorem integerToken_isPlain {base : Nat} {numeral : List Char} {t : Token}
    (h : integerToken base numeral = .ok t) : t.IsPlain := by
  unfold integerToken at h
  dsimp only at h
  split at h
  · simp at h
  · cases h
    trivial

theorem scanDecimal_isPlain {text : List Char} {t : Token} (h : (scanDecimal text).found = .ok t) :
    t.IsPlain := by
  unfold scanDecimal at h
  split at h
  · split at h
    · cases h
      trivial
    · exact integerToken_isPlain h
  · exact integerToken_isPlain h

theorem scanNumber_isPlain {c : Char} {text : List Char} {t : Token}
    (h : (scanNumber c text).found = .ok t) : t.IsPlain := by
  unfold scanNumber at h
  split at h
  · split at h
    · exact integerToken_isPlain h
    · exact scanDecimal_isPlain h
  · split at h
    · exact integerToken_isPlain h
    · exact scanDecimal_isPlain h
  · exact scanDecimal_isPlain h

theorem scanSymbol_isPlain {c : Char} {text : List Char} {t : Token}
    (h : (scanSymbol c text).found = .ok t) : t.IsPlain := by
  unfold scanSymbol scanSymbolTwo scanSymbolOne at h
  repeat' split at h
  all_goals
    cases h
    try trivial

theorem scan_isPlain {c : Char} {text : List Char} {t : Token} (h : (scan c text).found = .ok t) :
    t.IsPlain := by
  unfold scan at h
  split at h
  · cases h
    trivial
  split at h
  · cases h
    exact nameToken_isPlain _
  split at h
  · exact scanNumber_isPlain h
  split at h
  · unfold scanString at h
    split at h <;> cases h
    trivial
  split at h
  · unfold scanDirective at h
    repeat' split at h
    all_goals
      cases h
      try trivial
  split at h
  · unfold scanSlash scanBlockComment at h
    repeat' split at h
    all_goals first
      | exact scanSymbol_isPlain h
      | cases h; trivial
      | cases h
  · exact scanSymbol_isPlain h

theorem Lexer.token_isPlain (lexer : Lexer) : ∀ l ∈ lexer.finish.lexemes, l.token.IsPlain := by
  fun_induction Lexer.finish lexer with
  | case1 lexer hnext => simp
  | case2 lexer l after hnext later ih =>
    obtain ⟨c, text, hrest, rfl, rfl⟩ := next?_eq_some hnext
    intro m hm
    rcases List.mem_cons.1 hm with rfl | hm
    · simp only [Lexer.lexeme]
      split
      · rename_i token hfound
        exact scan_isPlain hfound
      · trivial
    · exact ih m hm

namespace ParserState

variable {s s' : ParserState} {marks : List Mark}

/-- No identifier that is left is a keyword. -/
def NamesArePlain (s : ParserState) : Prop := ∀ t ∈ s.tokens, t.IsPlain

theorem NamesArePlain.after (hs : s.NamesArePlain) (h : Spells s marks s') : s'.NamesArePlain :=
  fun t ht => hs t (h.mem_tokens ht)

theorem NamesArePlain.head {t : Token} (hs : s.NamesArePlain) (h : s.token? = some t) :
    t.IsPlain := by
  refine hs t ?_
  rw [tokens_of_token? h]
  exact List.mem_cons_self

theorem namesArePlain_ofSource (source : String) : (ofSource source).NamesArePlain := by
  intro t ht
  obtain ⟨l, hl, rfl⟩ := List.mem_map.1 ht
  have hmem := (List.mem_filter.1 hl).1
  exact (Lexer.ofString source).token_isPlain l hmem

end ParserState

end JaiFrontend
