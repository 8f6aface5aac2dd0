import JaiFrontend.Parser.Statement
import JaiFrontend.Proofs.BuiltDefinition
/-!
# What statements are built from

There is one lemma for each parser of statements, and of the items in the bodies of structures.
-/

namespace JaiFrontend.Parser

open ParserState

variable {inner : TreeParsers} {s s' : ParserState} {st : Statement}

theorem of_branch (run : branch inner s = .ok st s') :
    (∃ b, st = .block b ∧ (block inner).CanRead b) ∨
    ∃ t u, inner.statement t = .ok st u ∧ s' = u.leave := by
  obtain ⟨isBlock, s₁, -, rest⟩ := ok_of_bind run
  cases isBlock with
  | true =>
    obtain ⟨b, s₂, read, done⟩ := ok_of_bind rest
    cases done
    exact .inl ⟨b, rfl, .of_ok read⟩
  | false =>
    obtain ⟨u, read, rfl⟩ := ok_of_within rest
    exact .inr ⟨_, u, read, rfl⟩

/-! ### Returning -/

theorem of_namedReturn {named : NamedReturn} (h : namedReturn.CanRead named) :
    expression.CanRead named.value := by
  obtain ⟨s, s', run⟩ := h
  obtain ⟨isNamed, s₁, -, rest⟩ := ok_of_bind run
  cases isNamed with
  | false => cases rest
  | true =>
    simp only [if_true, bind_eq_ok] at rest
    obtain ⟨start, s₂, -, name, s₃, -, _, s₄, -, value, s₅, read, span, s₆, -, done⟩ := rest
    cases done
    exact .of_ok read

theorem of_positionalReturn {e : Expression} (h : positionalReturn.CanRead e) :
    expression.CanRead e := by
  obtain ⟨s, s', run⟩ := h
  obtain ⟨isNamed, s₁, -, rest⟩ := ok_of_bind run
  cases isNamed with
  | true => cases rest
  | false => exact .of_ok rest

theorem of_returnValues {values : ReturnValues} (h : returnValues.CanRead values) :
    (∃ es, values = .positional es ∧ ∀ e ∈ es, expression.CanRead e) ∨
    ∃ ns, values = .named ns ∧ ns ≠ [] ∧ ∀ named ∈ ns, expression.CanRead named.value := by
  obtain ⟨s, s', run⟩ := h
  obtain ⟨isEmpty, s₁, -, rest⟩ := ok_of_bind run
  cases isEmpty with
  | true =>
    cases rest
    exact .inl ⟨[], rfl, by simp⟩
  | false =>
    obtain ⟨isNamed, s₂, -, rest⟩ := ok_of_bind rest
    cases isNamed with
    | true =>
      obtain ⟨ns, s₃, listed, done⟩ := ok_of_bind rest
      cases done
      obtain ⟨hne, all⟩ := of_commaList (.of_ok listed)
      exact .inr ⟨ns, rfl, hne, fun named mem => of_namedReturn (all named mem)⟩
    | false =>
      obtain ⟨es, s₃, listed, done⟩ := ok_of_bind rest
      cases done
      obtain ⟨-, all⟩ := of_commaList (.of_ok listed)
      exact .inl ⟨es, rfl, fun e mem => of_positionalReturn (all e mem)⟩

theorem of_returnStatement (h : returnStatement.CanRead st) :
    ∃ values span, st = .return_ values span ∧ returnValues.CanRead values := by
  obtain ⟨s, s', run⟩ := h
  simp only [returnStatement, bind_eq_ok] at run
  obtain ⟨start, s₁, -, _, s₂, -, values, s₃, read, _, s₄, -, span, s₅, -, done⟩ := run
  cases done
  exact ⟨values, span, rfl, .of_ok read⟩

/-! ### Conditions and loops -/

/-- There is a branch behind `else`, and none where no `else` stands. -/
theorem of_elseBranch {o : Option Statement} (run : elseBranch inner s = .ok o s') :
    o = none ∧ s = s' ∧ s.isAtKeyword .else_ = false ∨
    ∃ st, o = some st ∧ s.isAtKeyword .else_ = true ∧ branch inner s.advance = .ok st s' := by
  obtain ⟨hasElse, s₁, accepted, rest⟩ := ok_of_bind run
  obtain ⟨rfl, at_else, rfl⟩ | ⟨rfl, no_else, rfl⟩ := ok_of_acceptKeyword accepted
  · obtain ⟨st, s₂, read, done⟩ := ok_of_bind rest
    cases done
    exact .inr ⟨st, rfl, at_else, read⟩
  · cases rest
    exact .inl ⟨rfl, rfl, no_else⟩

theorem of_ifStatement (run : ifStatement inner s = .ok st s') :
    (∃ condition isComplete body span, st = .ifEquality condition isComplete body span ∧
      expression.CanRead condition ∧ (block inner).CanRead body) ∨
    ∃ condition thenBranch orElse span t u,
      st = .if_ (withoutParens condition).1 (withoutParens condition).2 thenBranch orElse span ∧
      expression.CanRead condition ∧ branch inner t = .ok thenBranch u ∧
      elseBranch inner u = .ok orElse s' := by
  obtain ⟨start, s₁, -, rest⟩ := ok_of_bind run
  obtain ⟨_, s₂, -, rest⟩ := ok_of_bind rest
  obtain ⟨isComplete, s₃, -, rest⟩ := ok_of_bind rest
  obtain ⟨condition, s₄, readCondition, rest⟩ := ok_of_bind rest
  obtain ⟨isCases, s₅, -, rest⟩ := ok_of_bind rest
  split at rest
  · simp only [bind_eq_ok] at rest
    obtain ⟨_, s₆, -, body, s₇, read, span, s₈, -, done⟩ := rest
    cases done
    exact .inl ⟨condition, isComplete, body, span, rfl, .of_ok readCondition, .of_ok read⟩
  · obtain ⟨-, rest⟩ := ok_of_failedIf rest
    obtain ⟨_, s₆, -, rest⟩ := ok_of_bind rest
    obtain ⟨thenBranch, s₇, readThen, rest⟩ := ok_of_bind rest
    obtain ⟨orElse, s₈, readElse, rest⟩ := ok_of_bind rest
    obtain ⟨span, s₉, look, done⟩ := ok_of_bind rest
    obtain ⟨-, rfl⟩ := ok_of_view look
    cases done
    exact .inr ⟨condition, thenBranch, orElse, span, s₆, s₇, rfl, .of_ok readCondition, readThen,
      readElse⟩

theorem of_loopParts {loop : Option String × Expression × Statement}
    (run : loopParts inner s = .ok loop s') :
    expression.CanRead loop.2.1 ∧ ∃ t, branch inner t = .ok loop.2.2 s' := by
  simp only [loopParts, bind_eq_ok] at run
  obtain ⟨_, s₁, -, label, s₂, -, head, s₃, readHead, body, s₄, readBody, done⟩ := run
  cases done
  exact ⟨.of_ok readHead, s₃, readBody⟩

theorem of_whileStatement (run : whileStatement inner s = .ok st s') :
    ∃ label condition body span t, st = .while_ label condition body span ∧
      expression.CanRead condition ∧ branch inner t = .ok body s' := by
  obtain ⟨start, s₁, -, rest⟩ := ok_of_bind run
  obtain ⟨⟨label, condition, body⟩, s₂, read, rest⟩ := ok_of_bind rest
  obtain ⟨span, s₃, look, done⟩ := ok_of_bind rest
  obtain ⟨-, rfl⟩ := ok_of_view look
  cases done
  obtain ⟨readCondition, t, readBody⟩ := of_loopParts read
  exact ⟨label, condition, body, span, t, rfl, readCondition, readBody⟩

theorem of_forStatement (run : forStatement inner s = .ok st s') :
    ∃ label iterable body span t, st = .for_ label iterable body span ∧
      expression.CanRead iterable ∧ branch inner t = .ok body s' := by
  obtain ⟨start, s₁, -, rest⟩ := ok_of_bind run
  obtain ⟨⟨label, iterable, body⟩, s₂, read, rest⟩ := ok_of_bind rest
  obtain ⟨span, s₃, look, done⟩ := ok_of_bind rest
  obtain ⟨-, rfl⟩ := ok_of_view look
  cases done
  obtain ⟨readIterable, t, readBody⟩ := of_loopParts read
  exact ⟨label, iterable, body, span, t, rfl, readIterable, readBody⟩

theorem of_caseStatement (h : caseStatement.CanRead st) :
    ∃ directive value span, st = .case_ directive value span ∧
      ∀ e ∈ value, expression.CanRead e := by
  obtain ⟨s, s', run⟩ := h
  obtain ⟨start, s₁, -, rest⟩ := ok_of_bind run
  obtain ⟨_, s₂, -, rest⟩ := ok_of_bind rest
  obtain ⟨directive, s₃, -, rest⟩ := ok_of_bind rest
  obtain ⟨isEmpty, s₄, -, rest⟩ := ok_of_bind rest
  obtain ⟨value, s₅, read, rest⟩ := ok_of_either rest
  simp only [bind_eq_ok] at rest
  obtain ⟨_, s₆, -, span, s₇, -, done⟩ := rest
  cases done
  exact ⟨directive, value, span, rfl, of_optional read⟩

theorem of_breakStatement (h : breakStatement.CanRead st) :
    ∃ label span, st = .break_ label span := by
  obtain ⟨s, s', run⟩ := h
  obtain ⟨start, s₁, -, rest⟩ := ok_of_bind run
  obtain ⟨_, s₂, -, rest⟩ := ok_of_bind rest
  obtain ⟨hasColon, s₃, -, rest⟩ := ok_of_bind rest
  obtain ⟨hasLabel, s₄, -, rest⟩ := ok_of_bind rest
  obtain ⟨label, s₅, -, rest⟩ := ok_of_either rest
  simp only [bind_eq_ok] at rest
  obtain ⟨_, s₆, -, span, s₇, -, done⟩ := rest
  cases done
  exact ⟨label, span, rfl⟩

theorem of_continueStatement (h : continueStatement.CanRead st) :
    ∃ span, st = .continue_ span := by
  obtain ⟨s, s', run⟩ := h
  simp only [continueStatement, bind_eq_ok] at run
  obtain ⟨start, s₁, -, _, s₂, -, _, s₃, -, span, s₄, -, done⟩ := run
  cases done
  exact ⟨span, rfl⟩

/-! ### Expressions as statements -/

theorem of_expressionStatement (h : expressionStatement.CanRead st) :
    (∃ target op value span, st = .assignment target none op value span ∧
      target.isAssignable = true ∧ expression.CanRead target ∧ expression.CanRead value) ∨
    ∃ target span, st = .expression target span ∧ expression.CanRead target := by
  obtain ⟨s, s', run⟩ := h
  obtain ⟨start, s₁, -, rest⟩ := ok_of_bind run
  obtain ⟨target, s₂, readTarget, rest⟩ := ok_of_bind rest
  obtain ⟨t, s₃, -, rest⟩ := ok_of_bind rest
  cases found : t.bind Token.assignment? with
  | none =>
    simp only [found, bind_eq_ok] at rest
    obtain ⟨_, s₄, -, span, s₅, -, done⟩ := rest
    cases done
    exact .inr ⟨target, span, rfl, .of_ok readTarget⟩
  | some op =>
    rw [found] at rest
    cases hassignable : target.isAssignable with
    | false =>
      simp only [hassignable] at rest
      cases rest
    | true =>
      simp only [hassignable, if_true, bind_eq_ok] at rest
      obtain ⟨_, s₄, -, value, s₅, read, span, s₆, -, done⟩ := rest
      cases done
      exact .inl ⟨target, op, value, span, rfl, hassignable, .of_ok readTarget,
        of_valueThenSemicolon (.of_ok read)⟩

theorem of_deferStatement (h : (deferStatement inner).CanRead st) :
    ∃ body span, st = .defer body span ∧
      ((∃ b, body = .block b ∧ (block inner).CanRead b) ∨ expressionStatement.CanRead body) := by
  obtain ⟨s, s', run⟩ := h
  obtain ⟨start, s₁, -, rest⟩ := ok_of_bind run
  obtain ⟨_, s₂, -, rest⟩ := ok_of_bind rest
  obtain ⟨isBlock, s₃, -, rest⟩ := ok_of_bind rest
  obtain ⟨body, s₄, choice, rest⟩ := ok_of_either rest
  obtain ⟨span, s₅, -, done⟩ := ok_of_bind rest
  cases done
  refine ⟨body, span, rfl, ?_⟩
  obtain ⟨-, mapped⟩ | ⟨-, read⟩ := choice
  · obtain ⟨b, read, rfl⟩ := map_eq_ok.1 mapped
    exact .inl ⟨b, rfl, .of_ok read⟩
  · exact .inr (.of_ok read)

theorem of_usingStatement (run : usingStatement inner s = .ok st s') :
    ∃ body span t, st = .using_ body span ∧ inner.statement t = .ok body s' := by
  simp only [usingStatement, bind_eq_ok] at run
  obtain ⟨start, s₁, -, _, s₂, -, body, s₃, read, span, s₄, look, done⟩ := run
  obtain ⟨-, rfl⟩ := ok_of_view look
  cases done
  exact ⟨body, span, s₂, rfl, read⟩

/-- A statement was read by the parser that its first words select. -/
inductive ReadStatement (inner : TreeParsers) (s s' : ParserState) : Statement → Prop where
  | return_ {st : Statement} (read : returnStatement.CanRead st) : ReadStatement inner s s' st
  | if_ {st : Statement} (read : ifStatement inner s = .ok st s') : ReadStatement inner s s' st
  | while_ {st : Statement} (read : whileStatement inner s = .ok st s') :
    ReadStatement inner s s' st
  | for_ {st : Statement} (read : forStatement inner s = .ok st s') : ReadStatement inner s s' st
  | case_ {st : Statement} (read : caseStatement.CanRead st) : ReadStatement inner s s' st
  | break_ {st : Statement} (read : breakStatement.CanRead st) : ReadStatement inner s s' st
  | continue_ {st : Statement} (read : continueStatement.CanRead st) : ReadStatement inner s s' st
  | defer {st : Statement} (read : (deferStatement inner).CanRead st) :
    ReadStatement inner s s' st
  | using_ {st : Statement} (read : usingStatement inner s = .ok st s') :
    ReadStatement inner s s' st
  | block {b : Block} (read : (block inner).CanRead b) : ReadStatement inner s s' (.block b)
  | directive {name : String} {d : Definition}
    (read : directiveDefinition inner name s = .ok d s') :
    ReadStatement inner s s' (.ofDefinition d)
  | binding {st : Statement} (read : (binding inner).CanRead st) : ReadStatement inner s s' st
  | expression {st : Statement} (read : expressionStatement.CanRead st) :
    ReadStatement inner s s' st

theorem of_statement (run : statement inner s = .ok st s') : ReadStatement inner s s' st := by
  obtain ⟨t, s₁, look, rest⟩ := ok_of_bind run
  obtain ⟨-, rfl⟩ := ok_of_view look
  split at rest
  · exact .return_ (.of_ok rest)
  · exact .if_ rest
  · exact .while_ rest
  · exact .for_ rest
  · exact .case_ (.of_ok rest)
  · exact .break_ (.of_ok rest)
  · exact .continue_ (.of_ok rest)
  · exact .defer (.of_ok rest)
  · exact .using_ rest
  · obtain ⟨b, s₂, read, done⟩ := ok_of_bind rest
    cases done
    exact .block (.of_ok read)
  · obtain ⟨d, s₂, read, done⟩ := ok_of_bind rest
    cases done
    exact .directive read
  · obtain ⟨isBinding, s₂, -, rest⟩ := ok_of_bind rest
    cases isBinding with
    | true => exact .binding (.of_ok rest)
    | false => exact .expression (.of_ok rest)

/-! ### Bodies of structures -/

theorem of_unionType {type : FieldType} (h : (unionType inner).CanRead type) :
    ∃ body span, type = .union body span ∧ ∀ item ∈ body, inner.bodyItem.CanRead item := by
  obtain ⟨s, s', run⟩ := h
  simp only [unionType, bind_eq_ok] at run
  obtain ⟨start, s₁, -, _, s₂, -, r, s₃, read, span, s₄, -, done⟩ := run
  cases done
  exact ⟨r.1, span, rfl, (of_braced read).2⟩

/-- Behind the type of a field there is a second colon, a value or a semicolon. -/
theorem of_field {item : BodyItem} (h : (field inner).CanRead item) :
    (∃ name type span, item = .field name type none span ∧ (unionType inner).CanRead type) ∨
    (∃ name type start d t u, item = .statement (.declaration d) ∧ inner.type t = .ok type u ∧
      u.isAt .colon = true ∧ (constantExpression name (some type) start).CanRead d) ∨
    ∃ name type default span t u v, item = .field name (.type type) default span ∧
      inner.type t = .ok type u ∧ valueAfter .assign u = .ok default v ∧
      v.isAt .semicolon = true := by
  obtain ⟨s, s', run⟩ := h
  obtain ⟨start, s₁, -, rest⟩ := ok_of_bind run
  obtain ⟨name, s₂, -, rest⟩ := ok_of_bind rest
  obtain ⟨_, s₃, -, rest⟩ := ok_of_bind rest
  obtain ⟨isUnion, s₄, -, rest⟩ := ok_of_bind rest
  cases isUnion with
  | true =>
    simp only [if_true, bind_eq_ok] at rest
    obtain ⟨type, s₅, read, _, s₆, -, span, s₇, -, done⟩ := rest
    cases done
    exact .inl ⟨name, type, span, rfl, .of_ok read⟩
  | false =>
    obtain ⟨type, s₅, readType, rest⟩ := ok_of_bind rest
    obtain ⟨isConstant, s₆, accepted, rest⟩ := ok_of_bind rest
    obtain ⟨rfl, colon, rfl⟩ | ⟨rfl, -, rfl⟩ := ok_of_accept accepted
    · obtain ⟨d, s₇, read, done⟩ := ok_of_bind rest
      cases done
      exact .inr (.inl ⟨name, type, start, d, s₄, s₅, rfl, readType, colon, .of_ok read⟩)
    · simp only [Bool.false_eq_true, if_false, bind_eq_ok] at rest
      obtain ⟨default, s₇, readDefault, _, s₈, closed, span, s₉, -, done⟩ := rest
      obtain ⟨semicolon, -⟩ := ok_of_expect closed
      cases done
      exact .inr (.inr ⟨name, type, default, span, s₄, s₅, s₇, rfl, readType, readDefault,
        semicolon⟩)

theorem of_bodyItem {item : BodyItem} (h : (bodyItem inner).CanRead item) :
    (field inner).CanRead item ∨ ∃ st, item = .statement st ∧ (statement inner).CanRead st := by
  obtain ⟨s, s', run⟩ := h
  obtain ⟨isField, s₁, -, rest⟩ := ok_of_bind run
  cases isField with
  | true => exact .inl (.of_ok rest)
  | false =>
    obtain ⟨st, s₂, read, done⟩ := ok_of_bind rest
    cases done
    exact .inr ⟨st, rfl, .of_ok read⟩

end JaiFrontend.Parser
