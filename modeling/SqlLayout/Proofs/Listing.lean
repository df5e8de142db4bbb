import SqlLayout.Proofs.Itemizing
import SqlLayout.Proofs.Naming
import SqlLayout.Proofs.Progressing

/-! Queries for names, as trees. Without parentheses and without CASE the tokens of a statement
are its elements. A query for names falls into its two clauses; the commas cut the first one into
its names, and nothing in front of them is a modifier. The second one holds a table, unless its
name is the one that is read as the keyword of a join. -/
namespace SqlLayout

namespace Tree

theorem groupTokens_flat (vocabulary : Vocabulary) (current : List Element) (tokens : List Token)
    (flat : ∀ token ∈ tokens, token.kind ≠ .parenOpen ∧ token.kind ≠ .parenClose) :
    groupTokens vocabulary [] current tokens =
      groupTokens vocabulary [] (current ++ tokens.map .token) [] := by
  induction tokens generalizing current with
  | nil => simp
  | cons token rest ih =>
    rw [List.forall_mem_cons] at flat
    have step : groupTokens vocabulary [] current (token :: rest) =
        groupTokens vocabulary [] (current ++ [.token token]) rest := by
      rw [groupTokens, if_neg flat.1.1, if_neg flat.1.2]
    rw [step, ih _ flat.2, List.map_cons, List.append_assoc, List.singleton_append]

theorem groupCases_flat (depth : Nat) (tokens : List Token)
    (flat : ∀ token ∈ tokens, token.isKeyword ["CASE"] = false) :
    groupCases depth (tokens.map .token) = tokens.map .token := by
  induction tokens with
  | nil => exact groupCases_nil depth
  | cons token rest ih =>
    rw [List.forall_mem_cons] at flat
    rw [List.map_cons, groupCases_open depth token _ fun opens => by simp [flat.1] at opens,
      ih flat.2]

theorem cutAt_front (opens : Token → List Element → Bool) (front : List Token)
    (back : List Element) (closed : ∀ token ∈ front, ∀ rest, opens token rest = false) :
    cutAt opens (front.map .token ++ back) =
      (front.map .token ++ (cutAt opens back).1, (cutAt opens back).2) := by
  induction front with
  | nil => rfl
  | cons token rest ih =>
    rw [List.forall_mem_cons] at closed
    rw [List.map_cons, List.cons_append, cutAt, ih closed.2]
    simp [closed.1]

theorem cutCommas_names (name : Token) (others : List (Token × Token))
    (noComma : name.kind ≠ .comma)
    (parts : ∀ part ∈ others, part.1.kind = .comma ∧ part.2.kind ≠ .comma) :
    cutCommas ((name :: others.flatMap fun part => [part.1, part.2]).map .token) =
      ([.token name], others.map fun part => (part.1, [.token part.2])) := by
  induction others generalizing name with
  | nil =>
    rw [List.flatMap_nil, List.map_singleton, cutCommas_other _ _ (by simpa [isComma_token])]
    rfl
  | cons part rest ih =>
    rw [List.forall_mem_cons] at parts
    have front : (name :: (part :: rest).flatMap fun part => [part.1, part.2]).map Element.token =
        .token name :: .token part.1 ::
          (part.2 :: rest.flatMap fun part => [part.1, part.2]).map .token := rfl
    rw [front, cutCommas_other _ _ (by simpa [isComma_token]), cutCommas_comma _ _ parts.1.1,
      ih part.2 parts.1.2 parts.2, List.map_cons]

theorem splitTrailing_calm (belongs : Element → Bool) (elements : List Element)
    (calm : ∀ element ∈ elements, belongs element = false) :
    splitTrailing belongs elements = (elements, []) := by
  have ends : elements.reverse.takeWhile belongs = [] ∧
      elements.reverse.dropWhile belongs = elements.reverse := by
    cases whole : elements.reverse with
    | nil => exact ⟨rfl, rfl⟩
    | cons last before =>
      have quiet := calm last (List.mem_reverse.1 (by simp [whole]))
      simp [quiet]
  rw [splitTrailing, ends.1, ends.2, List.reverse_reverse, List.reverse_nil]

theorem moveLineComments_calm (items : List (List Element))
    (calm : ∀ item ∈ items, ∀ element ∈ item, element.isLineComment = false) :
    moveLineComments [] items = items := by
  induction items with
  | nil => rfl
  | cons item rest ih =>
    rw [List.forall_mem_cons] at calm
    cases rest with
    | nil => rfl
    | cons next others =>
      have split := splitTrailing_calm _ item calm.1
      simp [moveLineComments, split, ih calm.2]

end Tree

namespace NameQuery

open SqlLayout.Tree

/-- The one source. What is read as the keyword of a join is no table. -/
def sources (query : NameQuery) : ClauseBody Element :=
  if Text.upper query.table.text = "STRAIGHT_JOIN" then
    .sources ⟨[], []⟩ [⟨query.table, [], [], []⟩]
  else .sources ⟨[[.token query.table]], []⟩ []

def clauses (query : NameQuery) : List (Clause Element) :=
  [⟨some query.select, .projection []
      ⟨query.columns.map fun name => [.token name], query.others.map Prod.fst⟩⟩,
    ⟨some query.origin, query.sources⟩]

def statement (query : NameQuery) : Statement :=
  .ofForm (.query query.clauses)

theorem splitItems_columns (query : NameQuery) :
    splitItems ((query.first :: query.further).map .token) =
      ⟨query.columns.map fun name => [.token name], query.others.map Prod.fst⟩ := by
  have kind (name : Token) (member : name ∈ query.columns) : name.kind = .identifier :=
    (query.names name (List.mem_cons_of_mem _ member)).1
  have split := cutCommas_names query.first query.others
    (by simp [kind query.first (by simp [columns])])
    fun part member => ⟨query.commas part member, by
      simp [kind part.2 (List.mem_cons_of_mem _ (List.mem_map_of_mem member))]⟩
  have calm : ∀ item ∈ query.columns.map fun name => [Element.token name],
      ∀ element ∈ item, element.isLineComment = false := by
    intro item stands element inside
    obtain ⟨name, member, rfl⟩ := List.mem_map.1 stands
    rw [List.mem_singleton.1 inside]
    simp [Element.isLineComment, Element.isTokenWith, Element.token?, Token.isLineComment,
      Token.isComment, kind name member]
  have items : [Element.token query.first] ::
      (query.others.map fun part => (part.1, [Element.token part.2])).map Prod.snd =
        query.columns.map fun name => [.token name] := by
    simp [columns]
  have commas : (query.others.map fun part => (part.1, [Element.token part.2])).map Prod.fst =
      query.others.map Prod.fst := by
    simp
  rw [further, splitItems, if_neg (by simp), split]
  simp only [items, commas, moveLineComments_calm _ calm]

theorem splitModifiers_columns (query : NameQuery) :
    splitModifiers false ((query.first :: query.further).map .token) =
      ([], (query.first :: query.further).map .token) := by
  have name := (query.names query.first (by simp)).1
  have keyword (words : List String) :
      (Element.token query.first).isKeyword words = false := by
    simp [Element.isKeyword, Element.isTokenWith, Element.token?, Token.isKeyword,
      Token.isReserved, name]
  cases parts : query.others with
  | nil => simp [further, parts, splitModifiers, keyword]
  | cons part rest =>
    have comma := query.commas part (by simp [parts])
    simp [further, parts, splitModifiers, keyword, Element.isGroup, Element.group?,
      Element.isTokenWith, Element.token?, comma]

theorem clauseBody_sources (query : NameQuery) :
    clauseBody (some "FROM") [.token query.table] = query.sources := by
  obtain ⟨kind, contents, -⟩ := query.names query.table (by simp)
  have joins : isJoinKeyword query.table =
      decide (Text.upper query.table.text = "STRAIGHT_JOIN") := by
    simp only [isJoinKeyword, Token.isReserved, kind, contents]
    by_cases straight : Text.upper query.table.text = "STRAIGHT_JOIN" <;> simp [straight]
  have noLine : query.table.isLineComment = false := by
    simp [Token.isLineComment, Token.isComment, kind]
  rw [sources]
  by_cases straight : Text.upper query.table.text = "STRAIGHT_JOIN"
  · simp [clauseBody, cutAt, joins, straight, joinOf]
  · simp [clauseBody, cutAt, joins, straight, splitItems, cutCommas, kind, moveLineComments]

theorem splitClauses_tokens (query : NameQuery) :
    splitClauses queryClauses (query.tokens.map .token) = query.clauses := by
  have closed : ∀ token ∈ query.first :: query.further, ∀ rest,
      opensClause queryClauses token rest = false := by
    intro token member rest
    rw [opensClause, query.columns_free token member, Bool.false_and]
  have isName := (query.names query.table (by simp)).1
  have source : cutAt (opensClause queryClauses) [.token query.origin, .token query.table] =
      ([], [⟨query.origin, [.token query.table]⟩]) := by
    have opens : query.origin.contents ∈ queryClauses := by
      rw [query.origin_contents]
      decide
    simp [cutAt, opensClause, Token.isReserved, query.origin_reserved, isName, opens]
  have selects : query.select.isKeyword queryClauses = true := by
    rw [Token.isKeyword, Token.isReserved, query.select_reserved, query.select_contents]
    decide
  have whole : query.tokens.map Element.token = .token query.select ::
      ((query.first :: query.further).map .token ++
        [.token query.origin, .token query.table]) := by
    simp [tokens]
  rw [whole, splitClauses, cutClauses, cutAt_front _ _ _ closed, source]
  simp only [selects, if_true, List.append_nil, List.isEmpty_nil, List.map_cons, List.map_nil]
  rw [clauseOf, clauseOf, Option.map_some, Option.map_some, query.select_contents,
    query.origin_contents, clauseBody_sources, clauseBody]
  simp only [if_true]
  rw [← List.map_cons, splitModifiers_columns]
  simp only [splitItems_columns, clauses]

theorem statementOf_tokens (query : NameQuery) (progress : Progress) :
    ∃ after, (statementOf (query.tokens.map .token)).run progress =
      (.ok query.statement, after) := by
  have calm : ∀ element ∈ query.tokens.map Element.token, element.isComment = false := by
    intro element member
    obtain ⟨token, inside, rfl⟩ := List.mem_map.1 member
    rcases query.token_kind token inside with kind | kind | ⟨kind, -⟩ <;>
      simp [Element.isComment, Element.isTokenWith, Element.token?, Token.isComment, kind]
  have noFront : (query.tokens.map Element.token).takeWhile Element.isComment = [] ∧
      (query.tokens.map Element.token).dropWhile Element.isComment =
        query.tokens.map Element.token := by
    have quiet := calm (.token query.select) (by simp [tokens])
    simp [tokens, quiet]
  have noBack : splitTrailing Element.isComment (query.tokens.map Element.token) =
      (query.tokens.map Element.token, []) :=
    splitTrailing_calm _ _ calm
  have select (word : List String) : query.select.isKeyword word = word.contains "SELECT" := by
    rw [Token.isKeyword, Token.isReserved, query.select_reserved, query.select_contents]
    simp
  have shape : query.tokens.map Element.token =
      .token query.select :: (query.first :: (query.further ++ [query.origin, query.table])).map
        .token := rfl
  have form (next : Reader) : ∃ after,
      (formOf next (query.tokens.map .token)).run progress =
        (.ok (.query query.clauses), after) := by
    rw [shape, formOf]
    simp only [select]
    rw [if_neg (by simp), if_pos (by simp), ← shape, Build.clauses, splitClauses_tokens]
    exact ⟨_, rfl⟩
  obtain ⟨after, built⟩ := form (statementFuel (query.tokens.map Element.token).length)
  refine ⟨after, ?_⟩
  rw [statementOf, statementFuel, statementWith]
  simp only [noFront.1, noFront.2, noBack]
  rw [Build.run_bind_ok built]
  rfl

theorem walk_tokens (query : NameQuery) (vocabulary : Vocabulary) :
    (Tree.walk vocabulary query.tokens).statement = query.statement := by
  have visible (token : Token) (member : token ∈ query.tokens) :
      token.isBlank = false ∧ token.kind ≠ .parenOpen ∧ token.kind ≠ .parenClose ∧
        token.isKeyword ["CASE"] = false := by
    rcases query.token_kind token member with kind | kind | ⟨kind, contents⟩
    · simp [Token.isBlank, Token.isKeyword, Token.isReserved, kind]
    · simp [Token.isBlank, Token.isKeyword, Token.isReserved, kind]
    · rcases contents with contents | contents <;>
        simp [Token.isBlank, Token.isKeyword, Token.isReserved, kind, contents]
  have counted : countedTokens query.tokens = query.tokens := by
    have all : query.tokens.filter (!·.isBlank) = query.tokens := by
      rw [List.filter_eq_self]
      intro token member
      simp [(visible token member).1]
    have isName := (query.names query.table (by simp)).1
    rw [countedTokens, all, tokens_eq_append, List.reverse_append, List.reverse_singleton,
      List.singleton_append, List.dropWhile_cons_of_neg (by simp [isName]), List.reverse_cons,
      List.reverse_reverse]
  have grouped : ∃ progress, (groupTokens vocabulary [] [] query.tokens).run {} =
      (.ok (query.tokens.map .token), progress) := by
    rw [groupTokens_flat vocabulary [] query.tokens fun token member =>
      ⟨(visible token member).2.1, (visible token member).2.2.1⟩, groupTokens, List.nil_append,
      groupCases_flat 0 _ fun token member => (visible token member).2.2.2]
    exact ⟨_, rfl⟩
  obtain ⟨progress, step⟩ := grouped
  obtain ⟨after, made⟩ := query.statementOf_tokens progress
  have built : (build vocabulary query.tokens).run {} = (.ok query.statement, after) := by
    rw [build, Build.run_bind_ok step, made]
  rw [Tree.walk, counted]
  simp only [built]

end NameQuery

end SqlLayout
