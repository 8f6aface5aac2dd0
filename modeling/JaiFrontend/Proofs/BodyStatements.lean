import JaiFrontend.Proofs.FirstTokens
import JaiFrontend.Proofs.LastLine
import JaiFrontend.Proofs.OneByOne
/-!
# The statements of a body

A text is written between the braces of a procedure. If nothing is noted then, and the procedure is
all that is read, the text can be read without the procedure, too: as many calls for a statement
succeed as the body has statements, and yield them, at places that have moved.
-/

namespace JaiFrontend

open ParserState

/-! ### The words of the text -/

def procedureHead : String := "main :: () \x7b\n"

/-- A procedure with this body. -/
def procedureWith (body : String) : String := procedureHead ++ body ++ "\n\x7d"

/-- The words before the body. -/
def headWords : List Lexeme :=
  [⟨.identifier "main", "main", ⟨1, 1⟩, ⟨0, 4⟩⟩, ⟨.symbol .doubleColon, "::", ⟨1, 6⟩, ⟨5, 7⟩⟩,
    ⟨.symbol .leftParen, "(", ⟨1, 9⟩, ⟨8, 9⟩⟩, ⟨.symbol .rightParen, ")", ⟨1, 10⟩, ⟨9, 10⟩⟩,
    ⟨.symbol .leftBrace, "\x7b", ⟨1, 12⟩, ⟨11, 12⟩⟩]

/-- The words of the body. -/
def bodyWords (body : String) : List Lexeme := (ofSource body).rest.map (Lexeme.moved 13 1)

/-- The word behind the body. -/
def lastBrace (body : String) : Lexeme :=
  ((⟨.symbol .rightBrace, "\x7d", .origin, ⟨0, 1⟩⟩ : Lexeme).moved (body.utf8ByteSize + 1)
    (body.toList.count '\n' + 1)).moved 13 1

theorem utf8ByteSize_procedureWith (body : String) :
    (procedureWith body).utf8ByteSize = body.utf8ByteSize + 15 := by
  have hhead : procedureHead.utf8ByteSize = 13 := by decide +kernel
  have hlast : "\n\x7d".utf8ByteSize = 2 := by decide +kernel
  rw [procedureWith, String.utf8ByteSize_append, String.utf8ByteSize_append, hhead, hlast]
  omega

theorem ParserState.rest_procedureWith {body : String}
    (herrors : (Lexed.ofString (procedureWith body)).errors = []) :
    (ofSource (procedureWith body)).rest =
      headWords ++ (bodyWords body ++ [lastBrace body]) := by
  have hlines : procedureWith body = "main :: () \x7b" ++ "\n" ++ (body ++ "\n" ++ "\x7d") := by
    simp [procedureWith, procedureHead, ← String.toList_inj]
  have hhead : (ofSource "main :: () \x7b").rest = headWords := by decide +kernel
  have hlast : (ofSource "\x7d").rest = [⟨.symbol .rightBrace, "\x7d", .origin, ⟨0, 1⟩⟩] := by
    decide +kernel
  have hsize : "main :: () \x7b".utf8ByteSize = 12 := by decide +kernel
  have hcount : "main :: () \x7b".toList.count '\n' = 0 := by decide +kernel
  rw [hlines] at herrors ⊢
  obtain ⟨hwords, hfaults⟩ := Lexed.ofString_below "main :: () \x7b" (body ++ "\n" ++ "\x7d")
    (by decide +kernel)
  -- What is no word in the body would be none with the brace below it.
  have hlater : (Lexed.ofString (body ++ "\n" ++ "\x7d")).errors = [] :=
    List.map_eq_nil_iff.1 (hfaults.symm.trans herrors)
  have hbody := Lexed.errors_of_below (by decide) (by decide) hlater
  have hbelow := (Lexed.ofString_below body "\x7d" hbody).1
  have hsecond : (ofSource (body ++ "\n" ++ "\x7d")).rest =
      (ofSource body).rest ++ Lexed.wordsBelow body "\x7d" :=
    hbelow.trans (congrArg _ (Lexed.filter_below body "\x7d"))
  have hall : (ofSource ("main :: () \x7b" ++ "\n" ++ (body ++ "\n" ++ "\x7d"))).rest =
      (ofSource "main :: () \x7b").rest ++ Lexed.wordsBelow "main :: () \x7b"
        (body ++ "\n" ++ "\x7d") :=
    hwords.trans (congrArg _ (Lexed.filter_below _ _))
  rw [hall, hhead, Lexed.wordsBelow, hsecond, hsize, hcount, List.map_append, Lexed.wordsBelow,
    hlast]
  rfl

theorem stop_lastBrace (body : String) : (lastBrace body).span.stop = body.utf8ByteSize + 15 := by
  change 1 + (body.utf8ByteSize + 1) + 13 = _
  omega

namespace ParserState

/-- The body spans from the fifth word on. -/
theorem start_body {body : String}
    (herrors : (Lexed.ofString (procedureWith body)).errors = []) :
    ((ofSource (procedureWith body)).advanceBy 4).span.start = 11 := by
  simp [advanceBy, ParserState.span, rest_procedureWith herrors, headWords]

theorem previousStop_advance {s : ParserState} {l : Lexeme} {later : List Lexeme}
    (hrest : s.rest = l :: later) : s.leave.advance.previousStop = l.span.stop := by
  simp [previousStop, advance, advanceBy, leave, hrest]

end ParserState

/-! ### The procedure -/

namespace Parser

variable {inner : TreeParsers} {s u : ParserState} {l₁ l₂ l₃ l₄ l₅ : Lexeme} {later : List Lexeme}
  {name : String} {d : Definition}

theorem procedure_of_tokens {start : Nat} (hrest : s.rest = l₁ :: l₂ :: l₃ :: later)
    (h₁ : l₁.token = .symbol .leftParen) (h₂ : l₂.token = .symbol .rightParen)
    (h₃ : l₃.token = .symbol .leftBrace) :
    namedDefinition inner name start s = (some <$> block inner >>= fun body =>
      spanFrom start >>= fun span =>
        pure (.procedure name false [] [] [] body span)) (s.advanceBy 2) := by
  obtain ⟨consumed, rest, endOffset, contexts, log, isTruncated⟩ := s
  obtain ⟨_, _, _, _⟩ := l₁
  obtain ⟨_, _, _, _⟩ := l₂
  obtain ⟨_, _, _, _⟩ := l₃
  dsimp only at hrest h₁ h₂ h₃
  subst hrest h₁ h₂ h₃
  rfl

/-- A name, the mark that binds it, two parentheses and a brace begin a procedure with a body. -/
theorem block_of_definition (hrest : s.rest = l₁ :: l₂ :: l₃ :: l₄ :: l₅ :: later)
    (h₁ : l₁.token = .identifier name) (h₂ : l₂.token = .symbol .doubleColon)
    (h₃ : l₃.token = .symbol .leftParen) (h₄ : l₄.token = .symbol .rightParen)
    (h₅ : l₅.token = .symbol .leftBrace) (hok : definition inner s = .ok d u) :
    ∃ body, block inner (s.advanceBy 4) = .ok body u ∧
      d = .procedure name false [] [] [] (some body) (u.spanFrom s.span.start) := by
  have htoken : s.token? = some (.identifier name) := by
    simp [ParserState.token?, tokenAt?, hrest, h₁]
  have hat : s.advance.isAt .doubleColon = true := by
    simp [ParserState.isAt, ParserState.token?, tokenAt?, ParserState.advance, advanceBy, hrest, h₂]
  have htwice : s.advance.advance = s.advanceBy 2 := (advanceBy_add s 1 1).symm
  rw [definition_at_doubleColon htoken hat, htwice] at hok
  have hrest' : (s.advanceBy 2).rest = l₃ :: l₄ :: l₅ :: later := by simp [advanceBy, hrest]
  rw [procedure_of_tokens hrest' h₃ h₄ h₅, ← advanceBy_add] at hok
  obtain ⟨body, s₁, hbody, hfinish⟩ := ok_of_bind hok
  rw [map_eq_pure_bind] at hbody
  obtain ⟨body, s₂, hblock, hsome⟩ := ok_of_bind hbody
  cases hsome
  cases hfinish
  exact ⟨body, hblock, rfl⟩

/-- The statements of a block are read in rounds, and then a brace closes it. -/
theorem rounds_of_block {levels : Nat} {body : Block}
    (hok : block (treeParsers levels) s = .ok body u) (hquiet : u.Quiet) :
    ∃ v : ParserState, Rounds (treeParsers levels).statement closesItems
        (s.advance.enter .block) body.statements v ∧
      v.rest ≠ [] ∧ u = v.leave.advance ∧ body.span = u.spanFrom s.span.start := by
  obtain ⟨⟨items, span⟩, s₁, hbraced, hpure⟩ := ok_of_bind hok
  cases hpure
  obtain ⟨start, s₂, hstart, hexpects⟩ := ok_of_bind hbraced
  cases hstart
  obtain ⟨_, s₃, hexpect, hitems⟩ := ok_of_bind hexpects
  obtain ⟨read, s₄, hwithin, hcloses⟩ := ok_of_bind hitems
  obtain ⟨_, s₅, hclose, hspan⟩ := ok_of_bind hcloses
  cases hspan
  unfold expect at hexpect
  split at hexpect
  · cases hexpect
    obtain ⟨v, hrun, rfl⟩ := ok_of_within hwithin
    obtain ⟨as, v', hrun', hrounds⟩ :=
      (BracedItem.ofBlock : BracedItem (treeParsers levels) _ _).rounds (s.advance.enter .block)
    obtain ⟨rfl, rfl⟩ := EStateM.Result.ok.inj (hrun'.symm.trans hrun)
    unfold closeBrace at hclose
    split at hclose
    · cases hclose
      exact absurd hquiet (not_quiet_noteTruncation _ _)
    · rename_i hmore
      cases hclose
      exact ⟨_, hrounds, fun hnone => hmore (List.isEmpty_iff.2 hnone), rfl, rfl⟩
  · cases hexpect

theorem Rounds.single (h : Rounds nextDefinition (·.isAtEnd) s [d] u) (hquiet : u.Quiet) :
    nextDefinition s = .ok d u ∧ u.isAtEnd = true := by
  cases h with
  | read _ hrun _ _ hrounds =>
    cases hrounds with
    | done hends => exact ⟨item_of_recovering hrun, hends⟩
    | skip _ hrun' _ _ hlater => exact absurd (hlater.quiet hquiet) (not_quiet_of_skipped hrun')
  | skip _ hrun _ _ hlater => exact absurd (hlater.quiet hquiet) (not_quiet_of_skipped hrun)

end Parser

/-! ### The body and the text alone -/

/-- Behind the brace that opens the body, before its words. -/
def ParserState.bodyState (body : String) : ParserState where
  consumed := headWords.reverse
  rest := bodyWords body
  endOffset := (procedureWith body).utf8ByteSize
  contexts := []
  log := .empty
  isTruncated := false

theorem ParserState.ofSource_procedureWith {body : String}
    (herrors : (Lexed.ofString (procedureWith body)).errors = []) :
    ((ofSource (procedureWith body)).advanceBy 4).advance.enter .block =
      Parser.inBlock (bodyState body) (lastBrace body) rfl := by
  have hrest := rest_procedureWith herrors
  have hend := endOffset_ofSource (procedureWith body)
  have hstate : ofSource (procedureWith body) =
      ⟨[], headWords ++ (bodyWords body ++ [lastBrace body]), (procedureWith body).utf8ByteSize, [],
        .empty, false⟩ := by
    rw [← hrest, ← hend]
    rfl
  rw [hstate]
  rfl

/-- The words of the body begin where those of the text alone begin, moved by the head. -/
theorem ParserState.enters_body {body : String} (hbody : (ofSource body).rest ≠ []) :
    (Sight.shifted 5 13).comparison.Enters ((bodyState body).stoppingAt (body.utf8ByteSize + 13))
      (ofSource body) := by
  have hlook : (bodyWords body).map Lexeme.look =
      (ofSource body).rest.map (Lexeme.lookShifted 13 1) := by
    rw [bodyWords, List.map_map]
    rfl
  have hahead : (((bodyState body).stoppingAt (body.utf8ByteSize + 13)).advance.lexemes.drop
      5).map Lexeme.look = (ofSource body).advance.lexemes.map (Lexeme.lookShifted 13 1) := by
    rw [ParserState.advance, lexemes_advanceBy, ParserState.advance, lexemes_advanceBy]
    exact hlook
  obtain ⟨l, later, hfirst⟩ := List.exists_cons_of_ne_nil hbody
  refine ⟨?_, ?_, ?_⟩
  · rw [tokens, tokens, stoppingAt, bodyState, bodyWords, List.map_map]
    rfl
  · rw [Comparison.Same, span, span, stoppingAt, bodyState, bodyWords, hfirst]
    rfl
  · exact {
      words := seen_of_look hahead
      left := by
        rw [ParserState.advance, ParserState.advance, rest_advanceBy_length, rest_advanceBy_length,
          stoppingAt, bodyState, bodyWords, List.length_map]
      begun := .inl (by simp [ParserState.advance, advanceBy, hfirst])
      breaks := fun _ => laterLines_of_look hahead
      endOffset := by
        have hend : (ofSource body).advance.endOffset = body.utf8ByteSize :=
          endOffset_ofSource body
        rw [hend]
        rfl
      contexts := rfl
      isTruncated := rfl
      log := rfl }

/-- The body of the procedure that is the only definition of a file. -/
def SourceFile.soleBody? : SourceFile → Option Block
  | ⟨[.procedure _ _ _ _ _ body _], _⟩ => body
  | _ => none

theorem SourceFile.definitions_of_soleBody? {tree : SourceFile} {block : Block}
    (h : tree.soleBody? = some block) :
    ∃ name isInline parameters returns directives span, tree.definitions =
      [.procedure name isInline parameters returns directives (some block) span] := by
  unfold soleBody? at h
  split at h
  · exact ⟨_, _, _, _, _, _, by rw [h]⟩
  · cases h

/-- The statements of a body are those that are read one by one. If nothing is noted about a
procedure with this text as its body, and no definition is read behind it, then the body spans from
the brace before the text to the brace behind it. Called for one statement after the other, the
parser of the text alone succeeds until its words are used up, and notes nothing. What it yields are
the statements of the body, at places that have moved by the length of the head. -/
theorem body_is_read_one_by_one (body : String) {block : Block}
    (hquiet : (Parsed.ofString (procedureWith body)).diagnostics = [])
    (hbody : (Parsed.ofString (procedureWith body)).tree.soleBody? = some block) :
    block.span = ⟨11, (procedureWith body).utf8ByteSize⟩ ∧
      ∃ read s, OneByOne (ofSource body) read s ∧ s.log.entries = [] ∧
        block.statements = read.map (Statement.respan (Span.shift procedureHead.utf8ByteSize)) := by
  obtain ⟨herrors, hend⟩ := Parsed.quiet_of_diagnostics hquiet
  obtain ⟨_, _, _, _, _, _, htree⟩ := SourceFile.definitions_of_soleBody? hbody
  have hrounds := rounds_ofSource (procedureWith body)
  rw [htree] at hrounds
  obtain ⟨hrun, hatEnd⟩ := hrounds.single hend
  rw [Parser.nextDefinition_apply] at hrun
  obtain ⟨block', hblock, hd⟩ := Parser.block_of_definition (rest_procedureWith herrors) rfl rfl rfl
    rfl rfl hrun
  obtain rfl : block = block' := by
    injection hd with _ _ _ _ _ hbody
    exact Option.some.inj hbody
  obtain ⟨v, hitems, hmore, hlast, hspan⟩ := Parser.rounds_of_block hblock hend
  have hinside : Parser.Rounds
      (Parser.treeParsers (ofSource (procedureWith body)).rest.length).statement Parser.closesItems
      (Parser.inBlock (bodyState body) (lastBrace body) rfl) block.statements v := by
    rw [← ofSource_procedureWith herrors]
    exact hitems
  have hvquiet : v.Quiet := by
    have hafter : (afterSource (procedureWith body)).Quiet := hend
    rw [hlast] at hafter
    exact hafter
  -- The brace that closes the body is the last word, since nothing is left behind it.
  have hlength : v.rest.length = 1 := by
    rw [hlast] at hatEnd
    have hnone : v.rest.drop 1 = [] := by
      simpa [isAtEnd, ParserState.advance, advanceBy] using hatEnd
    have hsome : 0 < v.rest.length := List.length_pos_iff.2 hmore
    have hle := List.drop_eq_nil_iff.1 hnone
    omega
  have hoffset : procedureHead.utf8ByteSize = 13 := by decide +kernel
  refine ⟨?_, ?_⟩
  · have hbrace := hinside.rest_eq hvquiet hlength
    have hstop : (afterSource (procedureWith body)).previousStop = body.utf8ByteSize + 15 := by
      rw [hlast, previousStop_advance hbrace, stop_lastBrace]
    rw [hspan, spanFrom, start_body herrors, hstop, utf8ByteSize_procedureWith,
      Nat.max_eq_left (by omega)]
  · rw [hoffset]
    have hsame : (bodyState body).rest = [] ∧ (ofSource body).rest = [] ∨
        (Sight.shifted 5 13).comparison.Enters
          ((bodyState body).stoppingAt (body.utf8ByteSize + 13)) (ofSource body) := by
      by_cases hbody : (ofSource body).rest = []
      · refine .inl ⟨?_, hbody⟩
        rw [bodyState, bodyWords, hbody, List.map_nil]
      · exact .inr (enters_body hbody)
    exact hinside.oneByOne hvquiet hlength rfl hsame

/-- A condition with an `else`, an empty block, and a statement that returns. -/
def shortBody : String := "if x break;\nelse y = z;\n\x7b\x7d\nreturn y;"

theorem body_is_read_one_by_one_of_short :
    (Parsed.ofString (procedureWith shortBody)).diagnostics = [] ∧
      ∃ block, (Parsed.ofString (procedureWith shortBody)).tree.soleBody? = some block ∧
        block.statements.length = 3 ∧ block.span = ⟨11, (procedureWith shortBody).utf8ByteSize⟩ ∧
        ∃ read s, OneByOne (ofSource shortBody) read s ∧ s.log.entries = [] ∧
          block.statements =
            read.map (Statement.respan (Span.shift procedureHead.utf8ByteSize)) := by
  have hquiet : (Parsed.ofString (procedureWith shortBody)).diagnostics = [] := by decide +kernel
  have hlength : (Parsed.ofString (procedureWith shortBody)).tree.soleBody?.map
      (·.statements.length) = some 3 := by decide +kernel
  obtain ⟨block, hbody, hthree⟩ := Option.map_eq_some_iff.1 hlength
  exact ⟨hquiet, block, hbody, hthree, body_is_read_one_by_one shortBody hquiet hbody⟩

end JaiFrontend
