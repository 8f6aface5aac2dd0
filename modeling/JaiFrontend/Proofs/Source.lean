import JaiFrontend.Parser.Source
import JaiFrontend.Proofs.Lexemes
import JaiFrontend.Proofs.Statement
/-!
# What the parser of a whole text reads

The levels that a state is given suffice for every tree that begins there, and the definitions of a
text are a list of items that ends where the text ends.
-/

namespace JaiFrontend

open ParserState

/-- From `s` the parser has read the rest of a text, and this is the tree of it. -/
structure ParserState.ReadsFile (levels : Nat) (s s' : ParserState) (file : SourceFile) : Prop where
  reaches : Reaches levels s s.rest s'
  atEnd : s'.rest = []
  span : file.span = ⟨0, s.endOffset⟩
  lie : InOrder s.lexemes → Node.Lie s'.Quiet file.nodes s.rest
  tile : InOrder s.lexemes → s'.Quiet → Node.Tile s'.Quiet file.nodes s.rest

namespace Parser

theorem reading_treeParsers (levels : Nat) : (treeParsers levels).Reading levels := by
  induction levels with
  | zero =>
    exact {
      type := fun s => Fails.exhausted s
      bodyItem := fun s => Fails.exhausted s
      statement := fun s => Fails.exhausted s
      definition := fun s => Fails.exhausted s
      ifDirective := fun s _ => Fails.exhausted s }
  | succ levels ih =>
    exact {
      type := runs_type ih
      bodyItem := runs_bodyItem ih
      statement := runs_statement ih
      definition := runs_definition ih
      ifDirective := fun s hdirective => runs_ifDirective ih hdirective }

theorem nextDefinition_apply (s : ParserState) :
    nextDefinition s = (treeParsers (s.rest.length + 1)).definition s := by
  rw [nextDefinition, treeParsersAt]

/-- Every token that is left allows one more level, so the levels of a definition always suffice. -/
theorem runs_nextDefinition (levels : Nat) (s : ParserState) :
    nextDefinition.Runs s (fun d s' => Forms levels s s' d.node) (Fails levels s) := by
  have hrun := (reading_treeParsers (s.rest.length + 1)).definition s
  exact (hrun.congr (nextDefinition_apply s)).forms_weaken fun _ => Nat.lt_succ_self _

theorem isAtItem_of_outermost {s : ParserState} (hout : s.contexts = [])
    (hleft : s.isAtEnd = false) : s.IsAtItem :=
  ⟨by simpa [isAtEnd] using hleft, .inl hout⟩

theorem runs_sourceFile (levels : Nat) {s : ParserState} (hout : s.contexts = [])
    (fail : Failure → ParserState → Prop) :
    sourceFile.Runs s (fun file s' => ReadsFile levels s s' file) fail := by
  simp only [sourceFile, definitions, runs_bind, runs_view, runs_pure]
  have hends : ∀ s' : ParserState, s'.contexts = s.contexts → s'.isAtEnd = false → s'.IsAtItem :=
    fun s' hcontexts => isAtItem_of_outermost (hcontexts.trans hout)
  refine (runs_itemsUntil (runs_nextDefinition levels) hends).cut ?_
  rintro items s' ⟨⟨row, hreach, _, hnodes⟩, hend⟩
  have hatEnd : s'.rest = [] := by simpa [isAtEnd] using hend
  have hall : row = s.rest := by
    rw [hreach.rest, hatEnd, List.append_nil]
  subst hall
  exact {
    reaches := hreach
    atEnd := hatEnd
    span := by rw [hreach.endOffset]
    lie := fun ho => (hnodes ho).1
    tile := fun ho => (hnodes ho).2 }

end Parser

namespace ParserState

theorem finish_readsFile (levels : Nat) (row : List Lexeme) :
    Parser.sourceFile (ofLexemes row) = .ok (ofLexemes row).finish.1 (ofLexemes row).finish.2 ∧
      ReadsFile levels (ofLexemes row) (ofLexemes row).finish.2 (ofLexemes row).finish.1 := by
  have hruns := Parser.runs_sourceFile levels (s := ofLexemes row) rfl fun _ _ => False
  obtain ⟨file, s', hrun, hreads⟩ := hruns.exists_ok
  have hfinish : (ofLexemes row).finish = (file, s') := by rw [finish, hrun]
  rw [hfinish]
  exact ⟨hrun, hreads⟩

/-- The parser at the beginning of a source text has all its words before it. -/
theorem readsFile_ofSource (levels : Nat) (source : String) :
    ReadsFile levels (ofSource source) (ofSource source).finish.2 (Parsed.ofString source).tree :=
  (finish_readsFile levels (Lexed.ofString source).lexemes).2

end ParserState

end JaiFrontend
