import SqlLayout.Proofs.Pieces
import SqlLayout.Proofs.Walking
import SqlLayout.Tree.Tokens

/-! The tokens of a tree are the tokens it was built from. A statement has the tokens of its
pieces, and those are the elements of its run, apart from groups that have become tuples. A
tuple holds its run twice, so what the parts collect is compared by its members alone. Nothing
is said here about how a tree is drawn. -/
namespace SqlLayout.Tree

@[simp] theorem collectRun_nil : collectRun [] = [] := rfl

@[simp] theorem collectRun_token (token : Token) (rest : List Element) :
    collectRun (.token token :: rest) = token :: collectRun rest := rfl

@[simp] theorem collectRun_group (inner : Group) (rest : List Element) :
    collectRun (.group inner :: rest) = inner.collect ++ collectRun rest := rfl

theorem collectRun_tokens (tokens : List Token) : collectRun (tokens.map .token) = tokens := by
  induction tokens with
  | nil => rfl
  | cons token rest ih => rw [List.map_cons, collectRun_token, ih]

theorem mem_collectRun (elements : List Element) (token : Token) :
    token ∈ collectRun elements ↔ Occurs (token ∈ ·.collect) elements := by
  induction elements with
  | nil => simp
  | cons element rest ih => rw [collectRun, List.mem_append, ih, occurs_cons]

theorem collectRuns_eq (runs : List (List Element)) :
    collectRuns runs = collectRun runs.flatten := by
  induction runs with
  | nil => rfl
  | cons run rest ih => rw [collectRuns, ih, List.flatten_cons, collectRun_append]

theorem collect_items (items : Items Element) :
    collectRuns items.items ++ items.commas = collectRun items.pieces := by
  rw [collectRuns_eq, Items.pieces, collectRun_append, collectRun_tokens]

theorem collectBranches_eq (branches : List (Branch Element)) :
    collectBranches branches = collectRun (branches.flatMap Branch.pieces) := by
  induction branches with
  | nil => rfl
  | cons branch rest ih =>
    rw [collectBranches, ih, List.flatMap_cons, collectRun_append, Branch.pieces,
      collectRun_token]

theorem collectConditions_eq (conditions : List (Condition Element)) :
    collectConditions conditions = collectRun (conditions.flatMap Condition.pieces) := by
  induction conditions with
  | nil => rfl
  | cons condition rest ih =>
    rw [collectConditions, ih, List.flatMap_cons, collectRun_append, Condition.pieces,
      collectRun_append, collectRun_tokens]

theorem collectJoins_eq (joins : List (Join Element)) :
    collectJoins joins = collectRun (joins.flatMap Join.pieces) := by
  induction joins with
  | nil => rfl
  | cons join rest ih =>
    rw [collectJoins, ih, collectConditions_eq, List.flatMap_cons, collectRun_append, Join.pieces,
      collectRun_append, collectRun_append, List.cons_append, collectRun_token]
    rfl

theorem collectClause_eq (body : ClauseBody Element) :
    collectClause body = collectRun body.pieces := by
  cases body with
  | run elements => rfl
  | projection modifiers columns =>
    rw [collectClause, ClauseBody.pieces, collectRun_append, ← collect_items, List.append_assoc]
  | sources tables joins =>
    rw [collectClause, ClauseBody.pieces, collectRun_append, ← collect_items, collectJoins_eq]
  | predicate conditions => rw [collectClause, ClauseBody.pieces, collectConditions_eq]
  | list entries => rw [collectClause, ClauseBody.pieces, ← collect_items]

theorem collectClauses_eq (clauses : List (Clause Element)) :
    collectClauses clauses = collectRun (clauses.flatMap Clause.pieces) := by
  induction clauses with
  | nil => rfl
  | cons clause rest ih =>
    rw [collectClauses, ih, collectClause_eq, List.flatMap_cons, collectRun_append,
      Clause.pieces, collectRun_append, collectRun_tokens]

theorem collectColumns_eq (columns : Option Group) :
    collectColumns columns = collectRun (columns.toList.map .group) := by
  cases columns with
  | none => rfl
  | some group => exact (List.append_nil _).symm

theorem collectTail_eq (tail : Option (Branch Element)) :
    collectTail tail = collectRun (tail.toList.flatMap Branch.pieces) := by
  cases tail with
  | none => rfl
  | some branch => simp [collectTail, Branch.pieces]

theorem collectDefinitions_eq (definitions : List Definition) :
    collectDefinitions definitions = collectRun (definitions.flatMap Definition.pieces) := by
  induction definitions with
  | nil => rfl
  | cons definition rest ih =>
    obtain ⟨head, keyword, modifiers, query⟩ := definition
    simp [collectDefinitions, ih, Definition.pieces]

mutual

theorem Statement.collect_eq (statement : Statement) :
    statement.collect = collectRun statement.pieces := by
  match statement with
  | ⟨leading, form, trailing⟩ =>
    rw [Statement.collect, Statement.pieces, collectRun_append, collectRun_append,
      collectRun_tokens, collectRun_tokens, form.collect_eq]

theorem Form.collect_eq (form : Form) : form.collect = collectRun form.pieces := by
  match form with
  | .query clauses => rw [Form.collect, Form.pieces, collectClauses_eq]
  | .insert keyword target columns source =>
    simp only [Form.collect, Form.pieces, collectColumns_eq, source.collect_eq, List.cons_append,
      collectRun_token, collectRun_append]
  | .update keyword target clauses =>
    simp only [Form.collect, Form.pieces, collectClauses_eq, List.cons_append, collectRun_token,
      collectRun_append]
  | .delete keyword target clauses =>
    simp only [Form.collect, Form.pieces, collectClauses_eq, List.cons_append, collectRun_token,
      collectRun_append]
  | .merge keyword target ⟨usingWord, source, conditions⟩ branches =>
    simp only [Form.collect, Form.pieces, collectConditions_eq, collectMerge_eq branches,
      List.cons_append, List.append_assoc, collectRun_token, collectRun_append]
  | .withQueries keyword modifiers definitions commas body =>
    simp only [Form.collect, Form.pieces, collectDefinitions_eq, body.collect_eq,
      List.cons_append, collectRun_token, collectRun_append, collectRun_tokens]
  | .create keyword object columns rest =>
    simp only [Form.collect, Form.pieces, collectColumns_eq, rest.collect_eq, List.cons_append,
      collectRun_token, collectRun_append]
  | .grant keyword privileges clauses =>
    simp only [Form.collect, Form.pieces, collectBranches_eq, List.cons_append, collectRun_token,
      collectRun_append]
  | .raw elements => rw [Form.collect, Form.pieces]

theorem InsertSource.collect_eq (source : InsertSource) :
    source.collect = collectRun source.pieces := by
  match source with
  | .nothing => rfl
  | .values keyword rows tail =>
    rw [InsertSource.collect, InsertSource.pieces, List.cons_append, List.cons_append,
      List.cons_append, collect_items, collectTail_eq, collectRun_token, collectRun_append]
  | .statement body => rw [InsertSource.collect, InsertSource.pieces, body.collect_eq]

theorem CreateRest.collect_eq (rest : CreateRest) : rest.collect = collectRun rest.pieces := by
  match rest with
  | .nothing => rfl
  | .query keyword body =>
    rw [CreateRest.collect, CreateRest.pieces, collectRun_token, body.collect_eq]
  | .run elements => rw [CreateRest.collect, CreateRest.pieces]

theorem collectMerge_eq (branches : List MergeBranch) :
    collectMerge branches = collectRun (piecesOfMerge branches) := by
  match branches with
  | [] => rfl
  | ⟨keyword, head, action⟩ :: rest =>
    simp only [collectMerge, piecesOfMerge, action.collect_eq, collectMerge_eq rest,
      List.cons_append, collectRun_token, collectRun_append]

end

/-- Tokens that are those of a run, in any order and any number of times. -/
def Gathers (tokens : List Token) (elements : List Element) : Prop :=
  ∀ token, token ∈ tokens ↔ token ∈ collectRun elements

theorem Gathers.of_eq {tokens : List Token} {elements : List Element}
    (same : tokens = collectRun elements) : Gathers tokens elements := by
  intro token
  rw [same]

theorem collect_cutAt (opens : Token → List Element → Bool) (elements : List Element) :
    collectRun (cutAt opens elements).1 ++ collectBranches (cutAt opens elements).2 =
      collectRun elements := by
  rw [collectBranches_eq, ← collectRun_append, pieces_cutAt]

theorem mem_splitItems (elements : List Element) (token : Token) :
    token ∈ collectRuns (splitItems elements).items ∨ token ∈ (splitItems elements).commas ↔
      token ∈ collectRun elements := by
  rw [← List.mem_append, collect_items, mem_collectRun, occurs_splitItems, mem_collectRun]

/-- Groups whose runs have not been cut into items. -/
def Uncut (elements : List Element) : Prop :=
  ∀ inner, .group inner ∈ elements → inner.items = []

theorem Uncut.of_subset {elements others : List Element} (uncut : Uncut elements)
    (subset : others ⊆ elements) : Uncut others := by
  intro inner member
  exact uncut inner (subset member)

theorem mem_asTuple (group : Group) (uncut : group.items = []) (token : Token) :
    token ∈ group.asTuple.collect ↔ token ∈ group.collect := by
  have items := mem_splitItems group.elements token
  rw [collect_group, collect_group, uncut]
  simp only [Group.asTuple, collectRuns, List.mem_append, List.mem_cons]
  grind

theorem gathers_statementOf (elements : List Element) (uncut : Uncut elements) :
    (statementOf elements).Yields fun statement => Gathers statement.collect elements := by
  intro before statement after given token
  rw [statement.collect_eq, mem_collectRun, mem_collectRun]
  refine holds_statementOf (token ∈ ·.collect) elements ?_ before statement after given
  exact fun inner member => mem_asTuple inner (uncut inner member) token

end SqlLayout.Tree
