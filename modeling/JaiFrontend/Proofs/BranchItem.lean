import JaiFrontend.Parser.Source
import JaiFrontend.Proofs.ContinuationDefinition
import JaiFrontend.Proofs.FirstTokens
/-!
# Items of lists and items of branches

A list of items is a file, a body or a block, and a branch that stands in it holds items, too. In a
structure these are read as statements are, and in an enumeration as definitions are. So a field is
read as a variable in a branch, and an enumerator with a value as a constant; but a field that is a
union and an enumerator without a value are refused there.
-/

namespace JaiFrontend

/-- What an item of a body is in a branch, if it can stand there. -/
def BodyItem.inBranch? : BodyItem → Option Statement
  | .field name (.type type) default span =>
    some (.declaration (.var name (some type) default span))
  | .field _ (.union _ _) _ _ => none
  | .statement st => some st

/-- What an item of an enumeration is in a branch, if it can stand there. -/
def EnumItem.inBranch? : EnumItem → Option Statement
  | .value ⟨name, some number, span⟩ =>
    some (.declaration (.constant name none (.expression number) span))
  | .value ⟨_, none, _⟩ => none
  | .definition d => some (.ofDefinition d)

/-- The first words of a field that is a union. -/
def BeginsUnionField (tokens : List Token) : Prop :=
  ∃ name later, tokens = .identifier name :: .symbol .colon :: .keyword .union :: later

/-- The first words of an enumerator without a value. -/
def BeginsBareEnumerator (tokens : List Token) : Prop :=
  ∃ name later, tokens = .identifier name :: .symbol .semicolon :: later

/-- The lists of items that a branch can stand in. -/
inductive ItemList where
  | file | structBody | unionBody | enumBody | block

namespace ItemList

def Item : ItemList → Type
  | file => Definition
  | structBody | unionBody => BodyItem
  | enumBody => EnumItem
  | block => Statement

/-- The context in which the items are read. -/
def context : ItemList → Context
  | file => .topLevel
  | structBody => .structBody
  | unionBody => .unionBody
  | enumBody => .enumBody
  | block => .block

def item (inner : Parser.TreeParsers) : (list : ItemList) → Parser list.Item
  | file => inner.definition
  | structBody | unionBody => inner.bodyItem
  | enumBody => Parser.enumItem inner
  | block => inner.statement

/-- A definition as an item. -/
def ofDefinition : (list : ItemList) → Definition → list.Item
  | file => id
  | structBody | unionBody => fun d => .statement (.ofDefinition d)
  | enumBody => .definition
  | block => .ofDefinition

/-- What an item is in a branch, if it can stand there. -/
def inBranch? : (list : ItemList) → list.Item → Option Statement
  | file => fun d => some (.ofDefinition d)
  | structBody | unionBody => BodyItem.inBranch?
  | enumBody => EnumItem.inBranch?
  | block => some

/-- What begins an item of the list, but none of a branch. -/
def RefusesInBranch : ItemList → List Token → Prop
  | structBody | unionBody => BeginsUnionField
  | enumBody => BeginsBareEnumerator
  | file | block => fun _ => False

end ItemList

namespace Parser

open ParserState

variable {inner : TreeParsers} {s u : ParserState} {name : String} {levels : Nat}

/-! ### Fields -/

/-- A field of a type is read in a branch as a variable, or as a constant if it is one. -/
theorem typedBinding_of_field {span : Span} {type : TypeExpr} {item : BodyItem}
    (hok : (do
      if ← accept .colon then
        return BodyItem.statement (.declaration (← constantExpression name (some type) span.start))
      let default ← valueAfter .assign
      expect .semicolon
      return .field name (.type type) default (← spanFrom span.start) : Parser BodyItem) s =
        .ok item u) :
    ∃ st, item.inBranch? = some st ∧ typedBinding name span type s = .ok st u := by
  obtain ⟨isConstant, s₁, hcolon, hlater⟩ := ok_of_bind hok
  cases isConstant with
  | true =>
    obtain rfl := advance_of_accept hcolon
    obtain ⟨d, s₂, hconstant, hpure⟩ := ok_of_bind hlater
    cases hpure
    refine ⟨_, rfl, ?_⟩
    rw [typedBinding_at_colon (isAt_of_accept hcolon), bind_of_ok hconstant]
    rfl
  | false =>
    obtain rfl := state_of_accept hcolon
    obtain ⟨default, s₂, hdefault, hends⟩ := ok_of_bind hlater
    obtain ⟨_, s₃, hexpect, hfinish⟩ := ok_of_bind hends
    cases hfinish
    refine ⟨_, rfl, ?_⟩
    obtain ⟨hasDefault, s₄, hassign, hvalue⟩ := ok_of_bind hdefault
    cases hasDefault with
    | true =>
      obtain rfl := advance_of_accept hassign
      obtain ⟨value, s₅, hexpression, hpure⟩ := ok_of_bind hvalue
      cases hpure
      have hends' : valueThenSemicolon s₁.advance = .ok value u := by
        rw [valueThenSemicolon, bind_of_ok hexpression, bind_of_ok hexpect]
        rfl
      rw [typedBinding_at_assign (isAt_of_accept hassign), bind_of_ok hends']
      rfl
    | false =>
      obtain rfl := state_of_accept hassign
      cases hvalue
      obtain ⟨hsemicolon, rfl⟩ := ok_of_expect hexpect
      rw [typedBinding_at_semicolon hsemicolon]

/-- What a parser of items yields is read as a statement in the same place, or it begins with words
that are refused. -/
def StandsInBranch (p : Parser Statement) (refused : List Token → Prop) (s u : ParserState) :
    Option Statement → Prop
  | some st => p s = .ok st u
  | none => refused s.tokens

theorem exists_of_unionType {type : FieldType} (hok : unionType inner s = .ok type u) :
    ∃ body span, type = .union body span := by
  obtain ⟨start, s₁, _, hmarked⟩ := ok_of_bind hok
  obtain ⟨_, s₂, _, hbraced⟩ := ok_of_bind hmarked
  obtain ⟨body, s₃, _, hfinish⟩ := ok_of_bind hbraced
  cases hfinish
  exact ⟨_, _, rfl⟩

/-- A field is read as a binding, if it is no union. -/
theorem statement_of_field {item : BodyItem}
    (hok : field (treeParsers levels) s = .ok item u) :
    StandsInBranch (statement (treeParsers levels)) BeginsUnionField s u item.inBranch? := by
  obtain ⟨start, s₁, hstart, hnamed⟩ := ok_of_bind hok
  cases hstart
  obtain ⟨name, s₂, hname, hmarked⟩ := ok_of_bind hnamed
  obtain ⟨_, s₃, hcolon, htyped⟩ := ok_of_bind hmarked
  obtain ⟨isUnion, s₄, hunion, hrest⟩ := ok_of_bind htyped
  cases hunion
  obtain ⟨htoken, rfl⟩ := ok_of_identifier hname
  obtain ⟨hat, rfl⟩ := ok_of_expect hcolon
  cases hunion : s.advance.advance.isAtKeyword .union with
  | true =>
    rw [if_pos hunion] at hrest
    obtain ⟨type, s₅, hbody, hmarked⟩ := ok_of_bind hrest
    obtain ⟨_, s₆, _, hfinish⟩ := ok_of_bind hmarked
    cases hfinish
    obtain ⟨body, span, rfl⟩ := exists_of_unionType hbody
    refine ⟨name, s.advance.advance.advance.tokens, ?_⟩
    rw [tokens_of_token? htoken, tokens_of_token? (token?_of_isAt hat),
      tokens_of_token? (token?_of_isAtKeyword hunion)]
  | false =>
    rw [if_neg (by simp [hunion])] at hrest
    obtain ⟨type, s₅, htype, hbound⟩ := ok_of_bind hrest
    obtain ⟨st, hst, hrun⟩ := typedBinding_of_field hbound
    rw [hst, StandsInBranch, statement_at_colon htoken hat, bind_of_ok htype]
    exact hrun

theorem statement_fails_at_union (h : BeginsUnionField s.tokens) :
    ∃ failure v, statement (treeParsers levels) s = .error failure v := by
  obtain ⟨name, later, htokens⟩ := h
  have hcolon : s.advance.tokens = .symbol .colon :: .keyword .union :: later := by
    rw [tokens_advance, htokens, List.tail_cons]
  have hunion : s.advance.advance.tokens = .keyword .union :: later := by
    rw [tokens_advance, hcolon, List.tail_cons]
  obtain ⟨failure, v, hfails⟩ : ∃ failure v,
      (treeParsers levels).type s.advance.advance = .error failure v := by
    cases levels with
    | zero => exact ⟨_, _, rfl⟩
    | succ levels => exact type_fails_at_union (token?_of_tokens hunion)
  refine ⟨failure, v, ?_⟩
  rw [statement_at_colon (token?_of_tokens htokens) (isAt_of_tokens hcolon), bind_of_error hfails]

theorem statement_of_bodyItem {item : BodyItem}
    (hok : bodyItem (treeParsers levels) s = .ok item u) :
    StandsInBranch (statement (treeParsers levels)) BeginsUnionField s u item.inBranch? := by
  have hsteps : bodyItem (treeParsers levels) s =
      (if s.isAtIdentifier && s.isBefore .colon then field (treeParsers levels)
        else statement (treeParsers levels) >>= fun st => pure (.statement st)) s := rfl
  rw [hsteps] at hok
  split at hok
  · exact statement_of_field hok
  · obtain ⟨st, s₁, hstatement, hpure⟩ := ok_of_bind hok
    cases hpure
    exact hstatement

/-! ### Enumerators -/

theorem definition_of_enumItem {item : EnumItem}
    (hok : enumItem (treeParsers (levels + 1)) s = .ok item u) :
    StandsInBranch ((treeParsers (levels + 1)).definition >>= fun d =>
      pure (Statement.ofDefinition d)) BeginsBareEnumerator s u item.inBranch? := by
  obtain ⟨start, s₁, hstart, hnamed⟩ := ok_of_bind hok
  cases hstart
  obtain ⟨isBare, s₂, hbare, hbound⟩ := ok_of_bind hnamed
  obtain ⟨hseen, rfl⟩ := EStateM.Result.ok.inj hbare
  cases isBare with
  | true =>
    obtain ⟨name, s₃, hname, hends⟩ := ok_of_bind hbound
    cases hends
    obtain ⟨htoken, rfl⟩ := ok_of_identifier hname
    refine ⟨name, s.advance.advance.tokens, ?_⟩
    rw [tokens_of_token? htoken, tokens_of_token? (token?_advance_of_isBefore hseen)]
  | false =>
    obtain ⟨isBound, s₃, hbinds, hlater⟩ := ok_of_bind hbound
    obtain ⟨hseen, rfl⟩ := EStateM.Result.ok.inj hbinds
    obtain ⟨isDefinition, s₄, hdefines, hitem⟩ := ok_of_bind hlater
    obtain ⟨hdefinition, rfl⟩ := EStateM.Result.ok.inj hdefines
    split at hitem
    · rename_i hvalue
      obtain ⟨rfl, hexpression⟩ := Bool.and_eq_true_iff.1 hvalue
      obtain ⟨name, s₅, hname, hvalued⟩ := ok_of_bind hitem
      obtain ⟨_, s₆, hadvance, hends⟩ := ok_of_bind hvalued
      cases hadvance
      obtain ⟨value, s₇, hvalue', hfinish⟩ := ok_of_bind hends
      cases hfinish
      obtain ⟨htoken, rfl⟩ := ok_of_identifier hname
      have hconstant : constantExpression name none s.span.start s.advance.advance =
          .ok (.constant name none (.expression value) (u.spanFrom s.span.start)) u := by
        rw [constantExpression, bind_of_ok hvalue']
        rfl
      have hnone : s.advance.advance.isDefinitionAt 0 = false := by
        rw [← isDefinitionAt_two]
        exact hdefinition.trans (by simpa using hexpression)
      have hrun : definition (treeParsers levels) s =
          .ok (.constant name none (.expression value) (u.spanFrom s.span.start)) u := by
        rw [definition_at_doubleColon htoken (isAt_advance_of_isBefore hseen),
          namedDefinition_of_expression hnone, hconstant]
      exact bind_of_ok hrun
    · obtain ⟨d, s₅, hdefinition, hpure⟩ := ok_of_bind hitem
      cases hpure
      exact bind_of_ok hdefinition

/-! ### Items -/

/-- The items of a file and of an enumeration are definitions, and none of them is a case. -/
theorem not_case_of_item (list : ItemList) {item : list.Item}
    (hok : list.item (treeParsers (levels + 1)) s = .ok item u)
    (hlist : list.context = .topLevel ∨ list.context = .enumBody) :
    s.isAtKeyword .case_ = false := by
  refine Bool.eq_false_iff.2 fun hcase => ?_
  obtain ⟨l, later, hrest, htoken⟩ := rest_of_token? (token?_of_isAtKeyword hcase)
  obtain ⟨consumed, rest, endOffset, contexts, log, isTruncated⟩ := s
  obtain ⟨_, _, _, _⟩ := l
  dsimp only at hrest htoken
  subst hrest htoken
  cases list with
  | file => cases hok
  | enumBody => cases hok
  | structBody | unionBody | block => simp [ItemList.context] at hlist

theorem branchItem_in (list : ItemList) (hs : s.context = list.context) :
    branchItem inner s =
      (if (list.context = .topLevel || list.context = .enumBody) && !s.isAtKeyword .case_ then
        inner.definition >>= fun d => pure (Statement.ofDefinition d)
      else inner.statement) s := by
  rw [← hs]
  rfl

/-- An item of a list is read as an item of a branch in the same place, or it is a field that is a
union or an enumerator without a value. -/
theorem branchItem_of_item (list : ItemList) {item : list.Item} (hs : s.context = list.context)
    (hok : list.item (treeParsers (levels + 1)) s = .ok item u) :
    StandsInBranch (branchItem (treeParsers (levels + 1))) list.RefusesInBranch s u
      (list.inBranch? item) := by
  have hcase := not_case_of_item list hok
  unfold StandsInBranch at *
  rw [branchItem_in list hs]
  cases list with
  | file =>
    rw [hcase (.inl rfl)]
    exact bind_of_ok hok
  | structBody => exact statement_of_bodyItem hok
  | unionBody => exact statement_of_bodyItem hok
  | enumBody =>
    rw [hcase (.inr rfl)]
    exact definition_of_enumItem hok
  | block => exact hok

/-- A field that is a union and an enumerator without a value are no items of a branch. -/
theorem branchItem_fails (list : ItemList) (hs : s.context = list.context)
    (hrefused : list.RefusesInBranch s.tokens) :
    ∃ failure v, branchItem (treeParsers (levels + 1)) s = .error failure v := by
  rw [branchItem_in list hs]
  cases list with
  | structBody => exact statement_fails_at_union hrefused
  | unionBody => exact statement_fails_at_union hrefused
  | enumBody =>
    obtain ⟨name, later, htokens⟩ := hrefused
    obtain ⟨failure, v, hfails⟩ := definition_fails_at_name (treeParsers levels) htokens
    have hcase : s.isAtKeyword .case_ = false := by simp [isAtKeyword, token?_of_tokens htokens]
    rw [hcase]
    exact ⟨failure, v, bind_of_error hfails⟩
  | file | block => exact hrefused.elim

end Parser

end JaiFrontend
