import JaiFrontend.Parser.Definition
import JaiFrontend.Proofs.BuiltType
/-!
# What definitions are built from

There is one lemma for each parser of definitions. Where it matters which word ended a part, or
which one began the rest, the lemma says so.
-/

namespace JaiFrontend.Parser

open ParserState

variable {inner : TreeParsers} {s s' : ParserState} {d : Definition} {name : String} {start : Nat}

/-! ### Values and blocks -/

theorem of_valueThenSemicolon {e : Expression} (h : valueThenSemicolon.CanRead e) :
    expression.CanRead e := by
  obtain ⟨s, s', run⟩ := h
  simp only [valueThenSemicolon, bind_eq_ok] at run
  obtain ⟨value, s₁, read, _, s₂, -, done⟩ := run
  cases done
  exact .of_ok read

theorem of_block {b : Block} (run : block inner s = .ok b s') :
    s.isAt .leftBrace = true ∧ ∀ st ∈ b.statements, inner.statement.CanRead st := by
  obtain ⟨r, s₁, read, done⟩ := ok_of_bind run
  cases done
  exact of_braced read

/-! ### Imports -/

theorem of_importConfig {config : ImportConfig} (h : importConfig.CanRead config) :
    expression.CanRead config.value := by
  obtain ⟨s, s', run⟩ := h
  simp only [importConfig, bind_eq_ok] at run
  obtain ⟨start, s₁, -, name, s₂, -, _, s₃, -, value, s₄, read, span, s₅, -, done⟩ := run
  cases done
  exact .of_ok read

theorem of_importing {binding : Option String} {i : ImportDirective}
    (h : (importing binding start).CanRead i) :
    ∀ config ∈ i.config, expression.CanRead config.value := by
  obtain ⟨s, s', run⟩ := h
  obtain ⟨isLoad, s₁, -, rest⟩ := ok_of_bind run
  obtain ⟨_, s₂, -, rest⟩ := ok_of_bind rest
  obtain ⟨path, s₃, -, rest⟩ := ok_of_bind rest
  obtain ⟨isEmpty, s₄, -, rest⟩ := ok_of_bind rest
  obtain ⟨s₅, rest⟩ := ok_of_rest rest
  obtain ⟨hasConfig, s₆, -, rest⟩ := ok_of_bind rest
  cases hasConfig with
  | false =>
    simp only [Bool.false_eq_true, if_false, bind_eq_ok] at rest
    obtain ⟨config, s₇, nothing, _, s₈, -, span, s₉, -, done⟩ := rest
    cases nothing
    cases done
    simp
  | true =>
    simp only [if_true, bind_eq_ok] at rest
    obtain ⟨config, s₇, listed, _, s₈, -, _, s₉, close, _, s₁₀, -, span, s₁₁, -, done⟩ := rest
    cases close
    cases done
    intro config mem
    exact of_importConfig ((of_commaList (.of_ok listed)).2 config mem)

/-! ### Procedures, structures and enumerations -/

/-- Behind the modifiers there is a semicolon or the brace of a body. -/
theorem of_procedure (h : (procedure inner name start).CanRead d) :
    ∃ isInline parameters returns directives body span t u v,
      d = .procedure name isInline parameters returns directives body span ∧
      (parameterList inner).CanRead parameters ∧ returnClause inner t = .ok returns u ∧
      many modifier u = .ok directives v ∧
      (body = none ∧ v.isAt .semicolon = true ∨
        ∃ b w, body = some b ∧ block inner v = .ok b w) := by
  obtain ⟨s, s', run⟩ := h
  obtain ⟨isInline, s₁, -, rest⟩ := ok_of_bind run
  obtain ⟨parameters, s₂, readParameters, rest⟩ := ok_of_bind rest
  obtain ⟨returns, s₃, readReturns, rest⟩ := ok_of_bind rest
  obtain ⟨directives, s₄, readDirectives, rest⟩ := ok_of_bind rest
  obtain ⟨isForward, s₅, accepted, rest⟩ := ok_of_bind rest
  obtain ⟨body, s₆, choice, rest⟩ := ok_of_either rest
  obtain ⟨span, s₇, -, done⟩ := ok_of_bind rest
  cases done
  refine ⟨isInline, parameters, returns, directives, body, span, s₂, s₃, s₄, rfl,
    .of_ok readParameters, readReturns, readDirectives, ?_⟩
  obtain ⟨rfl, hat, -⟩ | ⟨rfl, -, rfl⟩ := ok_of_accept accepted
  · obtain ⟨-, nothing⟩ | ⟨⟨⟩, -⟩ := choice
    cases nothing
    exact .inl ⟨rfl, hat⟩
  · obtain ⟨⟨⟩, -⟩ | ⟨-, mapped⟩ := choice
    obtain ⟨b, read, rfl⟩ := map_eq_ok.1 mapped
    exact .inr ⟨b, s₆, rfl, read⟩

theorem of_struct (h : (struct inner name start).CanRead d) :
    ∃ parameters body span, d = .struct name parameters body span ∧
      (parameters = [] ∨ (parameterList inner).CanRead parameters) ∧
      ∀ item ∈ body, inner.bodyItem.CanRead item := by
  obtain ⟨s, s', run⟩ := h
  obtain ⟨_, s₁, -, rest⟩ := ok_of_bind run
  obtain ⟨hasParameters, s₂, -, rest⟩ := ok_of_bind rest
  obtain ⟨parameters, s₃, choice, rest⟩ := ok_of_either rest
  simp only [bind_eq_ok] at rest
  obtain ⟨r, s₄, read, _, s₅, -, span, s₆, -, done⟩ := rest
  cases done
  refine ⟨parameters, r.1, span, rfl, ?_, (of_braced read).2⟩
  obtain ⟨-, read⟩ | ⟨-, nothing⟩ := choice
  · exact .inr (.of_ok read)
  · cases nothing
    exact .inl rfl

theorem of_backingType {backing : Option PrimitiveType} (h : backingType.CanRead backing) :
    backing.all (·.kind.isInteger) = true := by
  obtain ⟨s, s', run⟩ := h
  obtain ⟨span, s₁, -, rest⟩ := ok_of_bind run
  obtain ⟨t, s₂, -, rest⟩ := ok_of_bind rest
  split at rest
  · rename_i name
    cases found : (PrimitiveKind.ofText? name).filter PrimitiveKind.isInteger with
    | none =>
      rw [found] at rest
      cases rest
    | some kind =>
      rw [found] at rest
      obtain ⟨_, s₃, -, done⟩ := ok_of_bind rest
      cases done
      exact (Option.filter_eq_some_iff.1 found).2
  · cases rest
    rfl

/-- An item that is no enumerator was read as a definition. -/
theorem of_enumItem {item : EnumItem} (run : enumItem inner s = .ok item s') :
    (∃ enumerator, item = .value enumerator ∧
      ∀ value ∈ enumerator.value, expression.CanRead value) ∨
    ∃ d, item = .definition d ∧ inner.definition s = .ok d s' := by
  obtain ⟨start, s₁, look, rest⟩ := ok_of_bind run
  obtain ⟨-, rfl⟩ := ok_of_view look
  obtain ⟨isName, s₂, look, rest⟩ := ok_of_bind rest
  obtain ⟨-, rfl⟩ := ok_of_view look
  cases isName with
  | true =>
    simp only [if_true, bind_eq_ok] at rest
    obtain ⟨name, s₃, -, _, s₄, -, span, s₅, -, done⟩ := rest
    cases done
    exact .inl ⟨⟨name, none, span⟩, rfl, by simp⟩
  | false =>
    obtain ⟨isBound, s₃, look, rest⟩ := ok_of_bind rest
    obtain ⟨-, rfl⟩ := ok_of_view look
    obtain ⟨isDefinition, s₄, look, rest⟩ := ok_of_bind rest
    obtain ⟨-, rfl⟩ := ok_of_view look
    split at rest
    · simp only [bind_eq_ok] at rest
      obtain ⟨name, s₅, -, _, s₆, -, value, s₇, read, span, s₈, -, done⟩ := rest
      cases done
      exact .inl ⟨⟨name, some value, span⟩, rfl,
        by simpa using of_valueThenSemicolon (.of_ok read)⟩
    · obtain ⟨d, s₅, read, done⟩ := ok_of_bind rest
      cases done
      exact .inr ⟨d, rfl, read⟩

theorem of_enum (h : (enum inner name start).CanRead d) :
    ∃ isFlags directive backing body span, d = .enum name isFlags directive backing body span ∧
      backingType.CanRead backing ∧ ∀ item ∈ body, (enumItem inner).CanRead item := by
  obtain ⟨s, s', run⟩ := h
  simp only [enum, bind_eq_ok] at run
  obtain ⟨isFlags, s₁, -, _, s₂, -, directive, s₃, -, backing, s₄, readBacking, rest⟩ := run
  obtain ⟨r, s₅, read, _, s₆, -, span, s₇, -, done⟩ := rest
  cases done
  exact ⟨isFlags, directive, backing, r.1, span, rfl, .of_ok readBacking, (of_braced read).2⟩

/-! ### Bindings -/

theorem of_constantExpression {type : Option TypeExpr}
    (h : (constantExpression name type start).CanRead d) :
    ∃ value span, d = .constant name type (.expression value) span ∧
      expression.CanRead value := by
  obtain ⟨s, s', run⟩ := h
  simp only [constantExpression, bind_eq_ok] at run
  obtain ⟨value, s₁, read, span, s₂, -, done⟩ := run
  cases done
  exact ⟨value, span, rfl, of_valueThenSemicolon (.of_ok read)⟩

/-- Where the first tokens announce a definition, an expression is read only at the directive of
code, and only without the brace of a block behind it. -/
inductive ReadNamed (inner : TreeParsers) (name : String) (start : Nat) (s : ParserState) :
    Definition → Prop where
  | struct {d : Definition} (read : (struct inner name start).CanRead d) :
    ReadNamed inner name start s d
  | enum {d : Definition} (read : (enum inner name start).CanRead d) :
    ReadNamed inner name start s d
  | procedure {d : Definition} (read : (procedure inner name start).CanRead d) :
    ReadNamed inner name start s d
  | importing {i : ImportDirective} (read : (importing (some name) start).CanRead i) :
    ReadNamed inner name start s (.importing i)
  | code {code : Block} {span : Span} (read : (block inner).CanRead code) :
    ReadNamed inner name start s (.constant name none (.code code) span)
  | expression {d : Definition} (read : (constantExpression name none start).CanRead d)
    (only_code : s.isDefinitionAt 0 = true →
      s.isAtDirective "code" = true ∧ s.isBefore .leftBrace = false) :
    ReadNamed inner name start s d

theorem of_namedDefinition (run : namedDefinition inner name start s = .ok d s') :
    ReadNamed inner name start s d := by
  obtain ⟨t, s₁, look, rest⟩ := ok_of_bind run
  obtain ⟨token, rfl⟩ := ok_of_view look
  have htoken : s.tokenAt? 0 = t := token
  split at rest
  · exact .struct (.of_ok rest)
  · exact .enum (.of_ok rest)
  · exact .enum (.of_ok rest)
  · exact .procedure (.of_ok rest)
  · obtain ⟨isProcedure, s₂, look, rest⟩ := ok_of_bind rest
    obtain ⟨hprocedure, rfl⟩ := ok_of_view look
    cases isProcedure with
    | true => exact .procedure (.of_ok rest)
    | false =>
      refine .expression (.of_ok rest) fun announced => ?_
      simp [isDefinitionAt, htoken, hprocedure] at announced
  · rename_i directive
    split at rest
    · obtain ⟨i, s₂, read, done⟩ := ok_of_bind rest
      cases done
      exact .importing (.of_ok read)
    · rename_i no_import
      obtain ⟨isBlock, s₂, look, rest⟩ := ok_of_bind rest
      obtain ⟨hblock, rfl⟩ := ok_of_view look
      split at rest
      · simp only [bind_eq_ok] at rest
        obtain ⟨_, s₃, -, code, s₄, read, _, s₅, -, span, s₆, -, done⟩ := rest
        cases done
        exact .code (.of_ok read)
      · rename_i no_block
        refine .expression (.of_ok rest) fun announced => ?_
        have hcode : directive = "code" := by
          simpa [isDefinitionAt, htoken, not_or.1 (by simpa using no_import)] using announced
        constructor
        · simp [isAtDirective, token, hcode]
        · simpa [hcode, ← hblock] using no_block
  · rename_i no_struct no_enum no_flags no_inline no_paren no_directive
    refine .expression (.of_ok rest) fun announced => ?_
    rw [isDefinitionAt, htoken] at announced
    split at announced <;> simp_all

/-- An operator stands where no path goes on, and without an operator nothing is consumed. -/
theorem of_compoundOp {o : Option AssignOp} (run : compoundOp s = .ok o s') :
    (∃ op t, o = some op ∧ op ≠ .assign ∧ s.token? = some t ∧ t.assignment? = some op) ∨
    o = none ∧ s = s' := by
  obtain ⟨t, s₁, look, rest⟩ := ok_of_bind run
  obtain ⟨token, rfl⟩ := ok_of_view look
  cases found : (t.bind Token.assignment?).filter (· ≠ .assign) with
  | none =>
    rw [found] at rest
    cases rest
    exact .inr ⟨rfl, rfl⟩
  | some op =>
    rw [found] at rest
    obtain ⟨_, s₂, -, done⟩ := ok_of_bind rest
    cases done
    obtain ⟨is_op, hne⟩ := Option.filter_eq_some_iff.1 found
    obtain ⟨t, rfl, is_op⟩ := Option.bind_eq_some_iff.1 is_op
    exact .inl ⟨op, t, rfl, by simpa using hne, token, is_op⟩

/-- What stands behind the type decides what it is the type of. -/
inductive ReadTyped (name : String) (nameSpan : Span) (type : TypeExpr) (s : ParserState) :
    Statement → Prop where
  | assignment {op : AssignOp} {t : Token} {value : Expression} {span : Span} (hne : op ≠ .assign)
    (token : s.token? = some t) (is_op : t.assignment? = some op)
    (read : expression.CanRead value) :
    ReadTyped name nameSpan type s
      (.assignment (.identifier name nameSpan) (some type) op value span)
  | constant {d : Definition} {start : Nat} (token : s.token? = some (.symbol .colon))
    (read : (constantExpression name (some type) start).CanRead d) :
    ReadTyped name nameSpan type s (.declaration d)
  | value {value : Expression} {span : Span} (token : s.token? = some (.symbol .assign))
    (read : expression.CanRead value) :
    ReadTyped name nameSpan type s (.declaration (.var name (some type) (some value) span))
  | bare {span : Span} (token : s.token? = some (.symbol .semicolon)) :
    ReadTyped name nameSpan type s (.declaration (.var name (some type) none span))

theorem of_typedBinding {nameSpan : Span} {type : TypeExpr} {st : Statement}
    (run : typedBinding name nameSpan type s = .ok st s') :
    ReadTyped name nameSpan type s st := by
  obtain ⟨o, s₁, operated, rest⟩ := ok_of_bind run
  obtain ⟨op, t, rfl, hne, token, is_op⟩ | ⟨rfl, rfl⟩ := of_compoundOp operated
  · simp only [bind_eq_ok] at rest
    obtain ⟨value, s₂, read, span, s₃, -, done⟩ := rest
    cases done
    exact .assignment hne token is_op (of_valueThenSemicolon (.of_ok read))
  · obtain ⟨t, s₁, look, rest⟩ := ok_of_bind rest
    obtain ⟨token, rfl⟩ := ok_of_view look
    split at rest
    · simp only [bind_eq_ok] at rest
      obtain ⟨_, s₂, -, d, s₃, read, done⟩ := rest
      cases done
      exact .constant token (.of_ok read)
    · simp only [bind_eq_ok] at rest
      obtain ⟨_, s₂, -, value, s₃, read, span, s₄, -, done⟩ := rest
      cases done
      exact .value token (of_valueThenSemicolon (.of_ok read))
    · simp only [bind_eq_ok] at rest
      obtain ⟨_, s₂, -, span, s₃, -, done⟩ := rest
      cases done
      exact .bare token
    · cases rest

theorem of_binding {st : Statement} (run : binding inner s = .ok st s') :
    ∃ name, s.token? = some (.identifier name) ∧
      ((∃ d start t, st = .declaration d ∧ s.advance.isAt .doubleColon = true ∧
        namedDefinition inner name start t = .ok d s') ∨
      (∃ value span, st = .declaration (.var name none (some value) span) ∧
        expression.CanRead value) ∨
      ∃ nameSpan type t u, inner.type t = .ok type u ∧
        typedBinding name nameSpan type u = .ok st s') := by
  obtain ⟨nameSpan, s₁, look, rest⟩ := ok_of_bind run
  obtain ⟨-, rfl⟩ := ok_of_view look
  obtain ⟨name, s₂, named, rest⟩ := ok_of_bind rest
  obtain ⟨token, rfl⟩ := ok_of_identifier named
  refine ⟨name, token, ?_⟩
  obtain ⟨isConstant, s₃, accepted, rest⟩ := ok_of_bind rest
  obtain ⟨rfl, hat, rfl⟩ | ⟨rfl, -, rfl⟩ := ok_of_accept accepted
  · obtain ⟨d, s₄, read, done⟩ := ok_of_bind rest
    cases done
    exact .inl ⟨d, _, _, rfl, hat, read⟩
  · obtain ⟨isInferred, s₄, -, rest⟩ := ok_of_bind rest
    cases isInferred with
    | true =>
      simp only [if_true, bind_eq_ok] at rest
      obtain ⟨value, s₅, read, span, s₆, -, done⟩ := rest
      cases done
      exact .inr (.inl ⟨value, span, rfl, of_valueThenSemicolon (.of_ok read)⟩)
    | false =>
      obtain ⟨_, s₅, -, rest⟩ := ok_of_bind rest
      obtain ⟨type, s₆, read, rest⟩ := ok_of_bind rest
      exact .inr (.inr ⟨nameSpan, type, s₅, s₆, read, rest⟩)

/-! ### Directives -/

theorem of_branchItem {st : Statement} (h : (branchItem inner).CanRead st) :
    (∃ d, st = .ofDefinition d ∧ inner.definition.CanRead d) ∨ inner.statement.CanRead st := by
  obtain ⟨s, s', run⟩ := h
  obtain ⟨context, s₁, -, rest⟩ := ok_of_bind run
  obtain ⟨isCase, s₂, -, rest⟩ := ok_of_bind rest
  split at rest
  · obtain ⟨d, s₃, read, done⟩ := ok_of_bind rest
    cases done
    exact .inl ⟨d, rfl, .of_ok read⟩
  · exact .inr (.of_ok rest)

theorem of_branchItems {items : List Statement} (h : (branchItems inner).CanRead items) :
    ∀ st ∈ items, (branchItem inner).CanRead st := by
  obtain ⟨s, s', run⟩ := h
  obtain ⟨isBraced, s₁, -, rest⟩ := ok_of_bind run
  cases isBraced with
  | true =>
    simp only [if_true, bind_eq_ok] at rest
    obtain ⟨context, s₂, -, r, s₃, read, done⟩ := rest
    cases done
    exact (of_braced read).2
  | false =>
    obtain ⟨st, s₂, read, done⟩ := ok_of_bind rest
    cases done
    simpa using CanRead.of_ok read

/-- There are items behind `else`, and none where no `else` stands. -/
theorem of_elseItems {items : Option (List Statement)}
    (run : elseItems inner s = .ok items s') :
    items = none ∧ s = s' ∧ s.isAtKeyword .else_ = false ∨
    (∃ d, items = some [.ofDefinition d] ∧ inner.ifDirective.CanRead d) ∨
    ∃ sts, items = some sts ∧ (branchItems inner).CanRead sts := by
  obtain ⟨hasElse, s₁, accepted, rest⟩ := ok_of_bind run
  obtain ⟨rfl, -, rfl⟩ | ⟨rfl, no_else, rfl⟩ := ok_of_acceptKeyword accepted
  · obtain ⟨isIf, s₂, -, rest⟩ := ok_of_bind rest
    cases isIf with
    | true =>
      obtain ⟨d, s₃, read, done⟩ := ok_of_bind rest
      cases done
      exact .inr (.inl ⟨d, rfl, .of_ok read⟩)
    | false =>
      obtain ⟨sts, s₃, read, done⟩ := ok_of_bind rest
      cases done
      exact .inr (.inr ⟨sts, rfl, .of_ok read⟩)
  · cases rest
    exact .inl ⟨rfl, rfl, no_else⟩

theorem of_ifDirective (run : ifDirective inner s = .ok d s') :
    (∃ condition isComplete body span, d = .ifCase condition isComplete body span ∧
      expression.CanRead condition ∧ (branchItems inner).CanRead body) ∨
    ∃ condition thenItems orElse span t, d = .ifDirective condition thenItems orElse span ∧
      expression.CanRead condition ∧ (branchItems inner).CanRead thenItems ∧
      elseItems inner t = .ok orElse s' := by
  obtain ⟨start, s₁, -, rest⟩ := ok_of_bind run
  obtain ⟨_, s₂, -, rest⟩ := ok_of_bind rest
  obtain ⟨isComplete, s₃, -, rest⟩ := ok_of_bind rest
  obtain ⟨condition, s₄, readCondition, rest⟩ := ok_of_bind rest
  obtain ⟨isCases, s₅, -, rest⟩ := ok_of_bind rest
  split at rest
  · simp only [bind_eq_ok] at rest
    obtain ⟨_, s₆, -, body, s₇, read, span, s₈, -, done⟩ := rest
    cases done
    exact .inl ⟨condition, isComplete, body, span, rfl, .of_ok readCondition, .of_ok read⟩
  · obtain ⟨-, rest⟩ := ok_of_failedIf rest
    simp only [bind_eq_ok] at rest
    obtain ⟨_, s₆, -, thenItems, s₇, readThen, orElse, s₈, readElse, span, s₉, look, done⟩ := rest
    obtain ⟨-, rfl⟩ := ok_of_view look
    cases done
    exact .inr ⟨condition, thenItems, orElse, span, s₇, rfl, .of_ok readCondition, .of_ok readThen,
      readElse⟩

theorem of_importDirective (h : importDirective.CanRead d) :
    ∃ i start, d = .importing i ∧ (importing none start).CanRead i := by
  obtain ⟨s, s', run⟩ := h
  simp only [importDirective, bind_eq_ok] at run
  obtain ⟨start, s₁, -, i, s₂, read, done⟩ := run
  cases done
  exact ⟨i, start, rfl, .of_ok read⟩

theorem of_scopeDirective {kind : ScopeKind} (h : (scopeDirective kind).CanRead d) :
    ∃ span, d = .scope ⟨kind, span⟩ := by
  obtain ⟨s, s', run⟩ := h
  simp only [scopeDirective, bind_eq_ok] at run
  obtain ⟨start, s₁, -, _, s₂, -, _, s₃, -, span, s₄, -, done⟩ := run
  cases done
  exact ⟨span, rfl⟩

theorem of_runDirective (h : (runDirective inner).CanRead d) :
    (∃ b span, d = .run (.block b) span ∧ (block inner).CanRead b) ∨
    ∃ e span, d = .run (.expression e) span ∧ expression.CanRead e := by
  obtain ⟨s, s', run⟩ := h
  obtain ⟨start, s₁, -, rest⟩ := ok_of_bind run
  obtain ⟨_, s₂, -, rest⟩ := ok_of_bind rest
  obtain ⟨isBlock, s₃, -, rest⟩ := ok_of_bind rest
  obtain ⟨body, s₄, choice, rest⟩ := ok_of_either rest
  simp only [bind_eq_ok] at rest
  obtain ⟨_, s₅, -, span, s₆, -, done⟩ := rest
  cases done
  obtain ⟨-, mapped⟩ | ⟨-, mapped⟩ := choice
  · obtain ⟨b, read, rfl⟩ := map_eq_ok.1 mapped
    exact .inl ⟨b, span, rfl, .of_ok read⟩
  · obtain ⟨e, read, rfl⟩ := map_eq_ok.1 mapped
    exact .inr ⟨e, span, rfl, .of_ok read⟩

theorem of_insertDirective (h : insertDirective.CanRead d) :
    ∃ target span, d = .insert ⟨target, span⟩ := by
  obtain ⟨s, s', run⟩ := h
  simp only [insertDirective, bind_eq_ok] at run
  obtain ⟨start, s₁, -, _, s₂, -, target, s₃, -, _, s₄, -, span, s₅, -, done⟩ := run
  cases done
  exact ⟨target, span, rfl⟩

theorem of_assertDirective (h : assertDirective.CanRead d) :
    ∃ as span, d = .assert ⟨as, span⟩ ∧ arguments.CanRead as := by
  obtain ⟨s, s', run⟩ := h
  simp only [assertDirective, bind_eq_ok] at run
  obtain ⟨start, s₁, -, _, s₂, -, as, s₃, read, _, s₄, -, span, s₅, -, done⟩ := run
  cases done
  exact ⟨as, span, rfl, .of_ok read⟩

theorem of_keptDirective (h : (keptDirective name).CanRead d) :
    ∃ span, d = .directive ⟨name, [], span⟩ := by
  obtain ⟨s, s', run⟩ := h
  simp only [keptDirective, bind_eq_ok] at run
  obtain ⟨start, s₁, -, _, s₂, -, _, s₃, -, span, s₄, -, done⟩ := run
  cases done
  exact ⟨span, rfl⟩

theorem of_definition (run : definition inner s = .ok d s') :
    (∃ name, directiveDefinition inner name s = .ok d s') ∨
      binding inner s = .ok (.declaration d) s' := by
  obtain ⟨t, s₁, look, rest⟩ := ok_of_bind run
  obtain ⟨-, rfl⟩ := ok_of_view look
  split at rest
  · exact .inl ⟨_, rest⟩
  · obtain ⟨isBinding, s₂, look, rest⟩ := ok_of_bind rest
    obtain ⟨-, rfl⟩ := ok_of_view look
    cases isBinding with
    | false => cases rest
    | true =>
      obtain ⟨st, s₃, read, rest⟩ := ok_of_bind rest
      split at rest
      · cases rest
        exact .inr read
      · cases rest

end JaiFrontend.Parser
