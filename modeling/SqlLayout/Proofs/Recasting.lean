import SqlLayout.Tree.Height
import SqlLayout.Tree.Walk

/-! Trees with other letters. A token and its twin differ in the case of their letters and in
the blanks between their words, so whoever reads or draws them takes one for the other.
Putting twins in the place of the tokens of a run commutes with every way of cutting it. -/
namespace SqlLayout

def spokenWords : List String :=
  ["PERCENT", "WITH", "TIES", "TOP", "NOT", "MATERIALIZED", "STRAIGHT_JOIN", "DECODE"]

def clauseWords : List String :=
  ["SELECT", "FROM", "VALUES", "SET"] ++ Tree.predicateClauses ++ Tree.orderingClauses ++
    Tree.setOperators

/-- Two tokens that are the same to all who do not look at the case of letters. -/
structure Twin (token twin : Token) : Prop where
  kind : twin.kind = token.kind
  text : token.kind.isWordLike = false → twin.text = token.text
  contents : token.isReserved = true → twin.contents = token.contents
  called : Text.upper twin.contents = Text.upper token.contents
  width : twin.contents.length = token.contents.length
  clause : ∀ word ∈ clauseWords, twin.contents = word ↔ token.contents = word
  spoken : ∀ word ∈ spokenWords, Text.upper twin.text = word ↔ Text.upper token.text = word
  -- Only single words have their length measured.
  size : token.isCompound = false ∨ Text.upper token.text = "DECODE" →
    twin.text.length = token.text.length

namespace Twin

theorem refl (token : Token) : Twin token token :=
  ⟨rfl, fun _ => rfl, fun _ => rfl, rfl, rfl, fun _ _ => Iff.rfl, fun _ _ => Iff.rfl, fun _ => rfl⟩

variable {token twin : Token}

theorem isReserved (same : Twin token twin) : twin.isReserved = token.isReserved := by
  rw [Token.isReserved, Token.isReserved, same.kind]

theorem isComment (same : Twin token twin) : twin.isComment = token.isComment := by
  rw [Token.isComment, Token.isComment, same.kind]

theorem isBlank (same : Twin token twin) : twin.isBlank = token.isBlank := by
  rw [Token.isBlank, Token.isBlank, same.kind]

theorem isLineComment (same : Twin token twin) : twin.isLineComment = token.isLineComment := by
  rw [Token.isLineComment, Token.isLineComment, same.isComment]
  by_cases isComment : token.isComment = true
  · have kind : token.kind = .comment := by simpa [Token.isComment] using isComment
    rw [same.text (by simp [kind, Token.Kind.isWordLike])]
  · simp [isComment]

theorem isKeyword (same : Twin token twin) (words : List String) :
    twin.isKeyword words = token.isKeyword words := by
  rw [Token.isKeyword, Token.isKeyword, same.isReserved]
  by_cases reserved : token.isReserved = true
  · rw [same.contents reserved]
  · simp [reserved]

/-- A twin may be written as the token itself. -/
theorem withText (same : Twin token twin) : Twin token { twin with text := token.text } :=
  ⟨same.kind, fun _ => rfl, same.contents, same.called, same.width, same.clause,
    fun _ _ => Iff.rfl, fun _ => rfl⟩

theorem contains (same : Twin token twin) (words : List String) (all : words ⊆ clauseWords) :
    words.contains twin.contents = words.contains token.contents := by
  rw [Bool.eq_iff_iff, List.contains_iff_mem, List.contains_iff_mem]
  constructor
  · intro member
    rwa [(same.clause _ (all member)).1 rfl]
  · intro member
    rwa [(same.clause _ (all member)).2 rfl]

theorem ofReserved (same : Twin token twin) (property : String → Bool) :
    (twin.isReserved && property twin.contents) =
      (token.isReserved && property token.contents) := by
  rw [same.isReserved]
  by_cases reserved : token.isReserved = true
  · rw [same.contents reserved]
  · simp [reserved]

end Twin

namespace Tree

mutual

/-- The tree with other tokens. A CASE expression starts with a single word; several words in
its place would keep their text. -/
def Element.recast (change : Token → Token) : Element → Element
  | .token token => .token (change token)
  | .group group => .group (group.recast change)
  | .case ⟨keyword, closing, depth, operand, branches⟩ =>
    .case ⟨if keyword.isCompound then { change keyword with text := keyword.text }
        else change keyword,
      change closing, depth, recastRun change operand, recastBranches change branches⟩

def Group.recast (change : Token → Token) : Group → Group
  | ⟨opening, closing, depth, role, body, elements, items⟩ =>
    ⟨change opening, change closing, depth, role, recastBody change body,
      recastRun change elements, recastRuns change items⟩

def recastRun (change : Token → Token) : List Element → List Element
  | [] => []
  | element :: rest => element.recast change :: recastRun change rest

def recastRuns (change : Token → Token) : List (List Element) → List (List Element)
  | [] => []
  | run :: rest => recastRun change run :: recastRuns change rest

def recastBody (change : Token → Token) : Option Statement → Option Statement
  | none => none
  | some statement => some (statement.recast change)

def recastBranches (change : Token → Token) : List (Branch Element) → List (Branch Element)
  | [] => []
  | ⟨keyword, elements⟩ :: rest =>
    ⟨change keyword, recastRun change elements⟩ :: recastBranches change rest

def recastConditions (change : Token → Token) :
    List (Condition Element) → List (Condition Element)
  | [] => []
  | ⟨connector, elements⟩ :: rest =>
    ⟨connector.map change, recastRun change elements⟩ :: recastConditions change rest

def recastJoins (change : Token → Token) : List (Join Element) → List (Join Element)
  | [] => []
  | ⟨keyword, source, conditions, columns⟩ :: rest =>
    ⟨change keyword, recastRun change source, recastConditions change conditions,
      recastRun change columns⟩ :: recastJoins change rest

def recastClause (change : Token → Token) : ClauseBody Element → ClauseBody Element
  | .run elements => .run (recastRun change elements)
  | .projection modifiers ⟨items, commas⟩ =>
    .projection (recastRun change modifiers) ⟨recastRuns change items, commas.map change⟩
  | .sources ⟨items, commas⟩ joins =>
    .sources ⟨recastRuns change items, commas.map change⟩ (recastJoins change joins)
  | .predicate conditions => .predicate (recastConditions change conditions)
  | .list ⟨items, commas⟩ => .list ⟨recastRuns change items, commas.map change⟩

def recastClauses (change : Token → Token) : List (Clause Element) → List (Clause Element)
  | [] => []
  | ⟨keyword, body⟩ :: rest =>
    ⟨keyword.map change, recastClause change body⟩ :: recastClauses change rest

def Statement.recast (change : Token → Token) : Statement → Statement
  | ⟨leading, form, trailing⟩ => ⟨leading.map change, form.recast change, trailing.map change⟩

def recastColumns (change : Token → Token) : Option Group → Option Group
  | none => none
  | some group => some (group.recast change)

def recastTail (change : Token → Token) : Option (Branch Element) → Option (Branch Element)
  | none => none
  | some ⟨keyword, elements⟩ => some ⟨change keyword, recastRun change elements⟩

def Form.recast (change : Token → Token) : Form → Form
  | .query clauses => .query (recastClauses change clauses)
  | .insert keyword target columns source =>
    .insert (change keyword) (recastRun change target) (recastColumns change columns)
      (source.recast change)
  | .update keyword target clauses =>
    .update (change keyword) (recastRun change target) (recastClauses change clauses)
  | .delete keyword target clauses =>
    .delete (change keyword) (recastRun change target) (recastClauses change clauses)
  | .merge keyword target ⟨usingWord, source, conditions⟩ branches =>
    .merge (change keyword) (recastRun change target)
      ⟨change usingWord, recastRun change source, recastConditions change conditions⟩
      (recastMerge change branches)
  | .withQueries keyword modifiers definitions commas body =>
    .withQueries (change keyword) (recastRun change modifiers)
      (recastDefinitions change definitions) (commas.map change) (body.recast change)
  | .create keyword object columns rest =>
    .create (change keyword) (recastRun change object) (recastColumns change columns)
      (rest.recast change)
  | .grant keyword privileges clauses =>
    .grant (change keyword) (recastRun change privileges) (recastBranches change clauses)
  | .raw elements => .raw (recastRun change elements)

def InsertSource.recast (change : Token → Token) : InsertSource → InsertSource
  | .nothing => .nothing
  | .values keyword ⟨items, commas⟩ tail =>
    .values (change keyword) ⟨recastRuns change items, commas.map change⟩ (recastTail change tail)
  | .statement body => .statement (body.recast change)

def CreateRest.recast (change : Token → Token) : CreateRest → CreateRest
  | .nothing => .nothing
  | .query keyword body => .query (change keyword) (body.recast change)
  | .run elements => .run (recastRun change elements)

def recastMerge (change : Token → Token) : List MergeBranch → List MergeBranch
  | [] => []
  | ⟨keyword, head, action⟩ :: rest =>
    ⟨change keyword, recastRun change head, action.recast change⟩ :: recastMerge change rest

def recastDefinitions (change : Token → Token) : List Definition → List Definition
  | [] => []
  | ⟨head, keyword, modifiers, query⟩ :: rest =>
    ⟨recastRun change head, change keyword, recastRun change modifiers, query.recast change⟩ ::
      recastDefinitions change rest

end

section Members

attribute [local simp] recastRun recastRuns recastBranches recastConditions recastJoins
  recastClauses

theorem recastRun_eq_map (change : Token → Token) (elements : List Element) :
    recastRun change elements = elements.map (Element.recast change) := by
  induction elements with
  | nil => rfl
  | cons element rest ih => simp [ih]

theorem recastRuns_eq_map (change : Token → Token) (runs : List (List Element)) :
    recastRuns change runs = runs.map (recastRun change) := by
  induction runs with
  | nil => rfl
  | cons run rest ih => simp [ih]

def Items.recast (change : Token → Token) (items : Items Element) : Items Element :=
  ⟨recastRuns change items.items, items.commas.map change⟩

def Branch.recast (change : Token → Token) (branch : Branch Element) : Branch Element :=
  ⟨change branch.keyword, recastRun change branch.elements⟩

def Condition.recast (change : Token → Token) (condition : Condition Element) :
    Condition Element :=
  ⟨condition.connector.map change, recastRun change condition.elements⟩

def Join.recast (change : Token → Token) (join : Join Element) : Join Element :=
  ⟨change join.keyword, recastRun change join.source, recastConditions change join.conditions,
    recastRun change join.columns⟩

def Clause.recast (change : Token → Token) (clause : Clause Element) : Clause Element :=
  ⟨clause.keyword.map change, recastClause change clause.body⟩

theorem recastBranches_eq_map (change : Token → Token) (branches : List (Branch Element)) :
    recastBranches change branches = branches.map (Branch.recast change) := by
  induction branches with
  | nil => rfl
  | cons branch rest ih => simp [ih, Branch.recast]

theorem recastConditions_eq_map (change : Token → Token) (conditions : List (Condition Element)) :
    recastConditions change conditions = conditions.map (Condition.recast change) := by
  induction conditions with
  | nil => rfl
  | cons condition rest ih => simp [ih, Condition.recast]

theorem recastJoins_eq_map (change : Token → Token) (joins : List (Join Element)) :
    recastJoins change joins = joins.map (Join.recast change) := by
  induction joins with
  | nil => rfl
  | cons join rest ih => simp [ih, Join.recast]

theorem recastClauses_eq_map (change : Token → Token) (clauses : List (Clause Element)) :
    recastClauses change clauses = clauses.map (Clause.recast change) := by
  induction clauses with
  | nil => rfl
  | cons clause rest ih => simp [ih, Clause.recast]

end Members

section Cutting

variable {change : Token → Token}

theorem isTokenWith_recast (property : Token → Bool)
    (same : ∀ token, property (change token) = property token) (element : Element) :
    (element.recast change).isTokenWith property = element.isTokenWith property := by
  cases element with
  | token token => exact same token
  | group group => rfl
  | case case => rfl

theorem takeWhile_recastRun (property : Element → Bool)
    (same : ∀ element, property (element.recast change) = property element)
    (elements : List Element) :
    (recastRun change elements).takeWhile property =
      recastRun change (elements.takeWhile property) := by
  rw [recastRun_eq_map, recastRun_eq_map, List.takeWhile_map]
  exact congrArg (List.map _) (congrArg (List.takeWhile · elements) (funext same))

theorem dropWhile_recastRun (property : Element → Bool)
    (same : ∀ element, property (element.recast change) = property element)
    (elements : List Element) :
    (recastRun change elements).dropWhile property =
      recastRun change (elements.dropWhile property) := by
  rw [recastRun_eq_map, recastRun_eq_map, List.dropWhile_map]
  exact congrArg (List.map _) (congrArg (List.dropWhile · elements) (funext same))

theorem any_recastRun (property : Element → Bool)
    (same : ∀ element, property (element.recast change) = property element)
    (elements : List Element) :
    (recastRun change elements).any property = elements.any property := by
  rw [recastRun_eq_map, List.any_map]
  exact congrArg (List.any elements) (funext same)

@[simp] theorem isEmpty_recastRun (elements : List Element) :
    (recastRun change elements).isEmpty = elements.isEmpty := by
  rw [recastRun_eq_map, List.isEmpty_map]

@[simp] theorem recastRun_append (first second : List Element) :
    recastRun change (first ++ second) = recastRun change first ++ recastRun change second := by
  simp only [recastRun_eq_map, List.map_append]

@[simp] theorem length_recastRun (elements : List Element) :
    (recastRun change elements).length = elements.length := by
  rw [recastRun_eq_map, List.length_map]

@[simp] theorem head?_recastRun (elements : List Element) :
    (recastRun change elements).head? = elements.head?.map (Element.recast change) := by
  rw [recastRun_eq_map, List.head?_map]

@[simp] theorem take_recastRun (count : Nat) (elements : List Element) :
    (recastRun change elements).take count = recastRun change (elements.take count) := by
  rw [recastRun_eq_map, recastRun_eq_map, List.map_take]

@[simp] theorem drop_recastRun (count : Nat) (elements : List Element) :
    (recastRun change elements).drop count = recastRun change (elements.drop count) := by
  rw [recastRun_eq_map, recastRun_eq_map, List.map_drop]

theorem cutAt_recast (opens : Token → List Element → Bool)
    (same : ∀ token rest, opens (change token) (recastRun change rest) = opens token rest)
    (elements : List Element) :
    cutAt opens (recastRun change elements) =
      (recastRun change (cutAt opens elements).1, recastBranches change (cutAt opens elements).2) := by
  induction elements with
  | nil => rfl
  | cons element rest ih =>
    cases element with
    | token token =>
      rw [recastRun, Element.recast, cutAt, cutAt, ih]
      simp only [same]
      split <;> rfl
    | group inner => rw [recastRun, Element.recast, cutAt, cutAt, ih]; rfl
    | case inner =>
      rw [recastRun, Element.recast, cutAt, cutAt, ih]
      simp only [recastRun, Element.recast]

variable (twins : ∀ token, Twin token (change token))

include twins

theorem isKeyword_recast (words : List String) (element : Element) :
    (element.recast change).isKeyword words = element.isKeyword words :=
  isTokenWith_recast _ (fun token => (twins token).isKeyword words) element

theorem isComma_recast (element : Element) :
    (element.recast change).isComma = element.isComma :=
  isTokenWith_recast _ (fun token => by rw [(twins token).kind]) element

theorem isComment_recast (element : Element) :
    (element.recast change).isComment = element.isComment :=
  isTokenWith_recast _ (fun token => (twins token).isComment) element

theorem isLineComment_recast (element : Element) :
    (element.recast change).isLineComment = element.isLineComment :=
  isTokenWith_recast _ (fun token => (twins token).isLineComment) element

theorem isReserved_recast (element : Element) :
    (element.recast change).isReserved = element.isReserved :=
  isTokenWith_recast _ (fun token => (twins token).isReserved) element

theorem isText_recast (word : String) (spoken : word ∈ spokenWords) (element : Element) :
    (element.recast change).isText word = element.isText word :=
  isTokenWith_recast _ (fun token => by
    simp only [(twins token).spoken word spoken]) element

omit twins in
theorem splitTrailing_recast (belongs : Element → Bool)
    (same : ∀ element, belongs (element.recast change) = belongs element)
    (elements : List Element) :
    splitTrailing belongs (recastRun change elements) =
      (recastRun change (splitTrailing belongs elements).1,
        recastRun change (splitTrailing belongs elements).2) := by
  have reversed (run : List Element) :
      (recastRun change run).reverse = recastRun change run.reverse := by
    simp only [recastRun_eq_map, List.map_reverse]
  simp only [splitTrailing, reversed, takeWhile_recastRun belongs same,
    dropWhile_recastRun belongs same]

theorem cutAtWords_recast (words : List String) (elements : List Element) :
    cutAtWords words (recastRun change elements) =
      (recastRun change (cutAtWords words elements).1,
        recastBranches change (cutAtWords words elements).2) :=
  cutAt_recast _ (fun token _ => (twins token).isKeyword words) elements

theorem cutCommas_recast (elements : List Element) :
    cutCommas (recastRun change elements) =
      (recastRun change (cutCommas elements).1,
        (cutCommas elements).2.map fun part => (change part.1, recastRun change part.2)) := by
  induction elements with
  | nil => rfl
  | cons element rest ih =>
    cases element with
    | token token =>
      rw [recastRun, Element.recast, cutCommas, cutCommas, ih]
      simp only [(twins token).kind]
      split <;> rfl
    | group inner => rw [recastRun, Element.recast, cutCommas, cutCommas, ih]; rfl
    | case inner =>
      rw [recastRun, Element.recast, cutCommas, cutCommas, ih]
      simp only [recastRun, Element.recast]

theorem moveLineComments_recast (carried : List Element) (items : List (List Element)) :
    moveLineComments (recastRun change carried) (recastRuns change items) =
      recastRuns change (moveLineComments carried items) := by
  induction items generalizing carried with
  | nil => rfl
  | cons item rest ih =>
    cases rest with
    | nil => simp [recastRuns, moveLineComments]
    | cons next others =>
      simp only [recastRuns] at ih
      simp [recastRuns, moveLineComments, ← recastRun_append, ih,
        splitTrailing_recast _ (isLineComment_recast twins)]

theorem splitItems_recast (elements : List Element) :
    splitItems (recastRun change elements) = (splitItems elements).recast change := by
  unfold splitItems
  rw [isEmpty_recastRun]
  split
  · rfl
  · have moved := moveLineComments_recast twins [] ((cutCommas elements).1 ::
      (cutCommas elements).2.map Prod.snd)
    rw [recastRuns, recastRuns_eq_map change (List.map _ _), List.map_map] at moved
    simp only [cutCommas_recast twins, Items.recast, List.map_map, Items.mk.injEq]
    exact ⟨moved, rfl⟩

theorem cutConditions_recast (between : Bool) (elements : List Element) :
    cutConditions between (recastRun change elements) =
      (recastRun change (cutConditions between elements).1,
        recastConditions change (cutConditions between elements).2) := by
  induction elements generalizing between with
  | nil => rfl
  | cons element rest ih =>
    have token? : (element.recast change).token? = element.token?.map change := by
      cases element <;> rfl
    rw [recastRun, cutConditions, cutConditions]
    simp only [isKeyword_recast twins, ih, token?]
    split
    · split <;> rfl
    · rfl

theorem splitConditions_recast (elements : List Element) :
    splitConditions (recastRun change elements) =
      recastConditions change (splitConditions elements) := by
  unfold splitConditions
  rw [isEmpty_recastRun, cutConditions_recast twins]
  split <;> rfl

theorem conditionsAfter_recast (keyword : Token) (elements : List Element) :
    conditionsAfter (change keyword) (recastRun change elements) =
      recastConditions change (conditionsAfter keyword elements) := by
  simp only [conditionsAfter, cutConditions_recast twins, recastConditions, Option.map_some]

theorem asTuple_recast (group : Group) :
    (group.recast change).asTuple = group.asTuple.recast change := by
  obtain ⟨opening, closing, depth, role, body, elements, items⟩ := group
  simp only [Group.recast, Group.asTuple, splitItems_recast twins, Items.recast]

theorem untilEnd_recast (inner : Nat) (elements : List Element) :
    untilEnd inner (recastRun change elements) =
      (untilEnd inner elements).map fun (before, closing, after) =>
        (recastRun change before, change closing, recastRun change after) := by
  induction elements generalizing inner with
  | nil => rfl
  | cons element rest ih =>
    have onward (inner : Nat) :
        (untilEnd inner (recastRun change rest)).map (fun (before, closing, after) =>
          (element.recast change :: before, closing, after)) =
        ((untilEnd inner rest).map fun (before, closing, after) =>
          (element :: before, closing, after)).map fun (before, closing, after) =>
            (recastRun change before, change closing, recastRun change after) := by
      rw [ih, Option.map_map, Option.map_map]
      rfl
    cases element with
    | token token =>
      rw [recastRun, Element.recast]
      simp only [untilEnd, (twins token).isKeyword]
      split
      · exact onward _
      split
      · cases inner with
        | zero => rfl
        | succ inner => exact onward inner
      · exact onward inner
    | group group => exact onward inner
    | case case =>
      rw [recastRun, Element.recast]
      exact onward inner

end Cutting

section Height

variable (change : Token → Token)

mutual

theorem Element.height_recast (element : Element) :
    (element.recast change).height = element.height := by
  match element with
  | .token _ => rfl
  | .group group =>
    rw [Element.recast, Element.height, Element.height, group.height_recast]
  | .case ⟨_, _, _, operand, branches⟩ =>
    rw [Element.recast, Element.height, Element.height, heightRun_recast operand,
      heightBranches_recast branches]

theorem Group.height_recast (group : Group) : (group.recast change).height = group.height := by
  match group with
  | ⟨_, _, _, _, body, elements, items⟩ =>
    rw [Group.recast, Group.height, Group.height, heightBody_recast body,
      heightRun_recast elements, heightRuns_recast items]

theorem heightRun_recast (elements : List Element) :
    heightRun (recastRun change elements) = heightRun elements := by
  match elements with
  | [] => rfl
  | element :: rest =>
    rw [recastRun, heightRun, heightRun, element.height_recast, heightRun_recast rest]

theorem heightRuns_recast (runs : List (List Element)) :
    heightRuns (recastRuns change runs) = heightRuns runs := by
  match runs with
  | [] => rfl
  | run :: rest =>
    rw [recastRuns, heightRuns, heightRuns, heightRun_recast run, heightRuns_recast rest]

theorem heightBody_recast (body : Option Statement) :
    heightBody (recastBody change body) = heightBody body := by
  match body with
  | none => rfl
  | some statement => rw [recastBody, heightBody, heightBody, statement.height_recast]

theorem heightBranches_recast (branches : List (Branch Element)) :
    heightBranches (recastBranches change branches) = heightBranches branches := by
  match branches with
  | [] => rfl
  | ⟨_, elements⟩ :: rest =>
    rw [recastBranches, heightBranches, heightBranches, heightRun_recast elements,
      heightBranches_recast rest]

theorem heightConditions_recast (conditions : List (Condition Element)) :
    heightConditions (recastConditions change conditions) = heightConditions conditions := by
  match conditions with
  | [] => rfl
  | ⟨_, elements⟩ :: rest =>
    rw [recastConditions, heightConditions, heightConditions, heightRun_recast elements,
      heightConditions_recast rest]

theorem heightJoins_recast (joins : List (Join Element)) :
    heightJoins (recastJoins change joins) = heightJoins joins := by
  match joins with
  | [] => rfl
  | ⟨_, source, conditions, columns⟩ :: rest =>
    rw [recastJoins, heightJoins, heightJoins, heightRun_recast source,
      heightConditions_recast conditions, heightRun_recast columns, heightJoins_recast rest]

theorem heightClause_recast (body : ClauseBody Element) :
    heightClause (recastClause change body) = heightClause body := by
  match body with
  | .run elements => rw [recastClause, heightClause, heightClause, heightRun_recast elements]
  | .projection modifiers ⟨items, _⟩ =>
    rw [recastClause, heightClause, heightClause, heightRun_recast modifiers,
      heightRuns_recast items]
  | .sources ⟨items, _⟩ joins =>
    rw [recastClause, heightClause, heightClause, heightRuns_recast items,
      heightJoins_recast joins]
  | .predicate conditions =>
    rw [recastClause, heightClause, heightClause, heightConditions_recast conditions]
  | .list ⟨items, _⟩ => rw [recastClause, heightClause, heightClause, heightRuns_recast items]

theorem heightClauses_recast (clauses : List (Clause Element)) :
    heightClauses (recastClauses change clauses) = heightClauses clauses := by
  match clauses with
  | [] => rfl
  | ⟨_, body⟩ :: rest =>
    rw [recastClauses, heightClauses, heightClauses, heightClause_recast body,
      heightClauses_recast rest]

theorem Statement.height_recast (statement : Statement) :
    (statement.recast change).height = statement.height := by
  match statement with
  | ⟨_, form, _⟩ =>
    rw [Statement.recast, Statement.height, Statement.height, form.height_recast]

theorem heightColumns_recast (columns : Option Group) :
    heightColumns (recastColumns change columns) = heightColumns columns := by
  match columns with
  | none => rfl
  | some group => rw [recastColumns, heightColumns, heightColumns, group.height_recast]

theorem heightTail_recast (tail : Option (Branch Element)) :
    heightTail (recastTail change tail) = heightTail tail := by
  match tail with
  | none => rfl
  | some ⟨_, elements⟩ => rw [recastTail, heightTail, heightTail, heightRun_recast elements]

theorem Form.height_recast (form : Form) : (form.recast change).height = form.height := by
  match form with
  | .query clauses => rw [Form.recast, Form.height, Form.height, heightClauses_recast clauses]
  | .insert _ target columns source =>
    rw [Form.recast, Form.height, Form.height, heightRun_recast target,
      heightColumns_recast columns, source.height_recast]
  | .update _ target clauses =>
    rw [Form.recast, Form.height, Form.height, heightRun_recast target,
      heightClauses_recast clauses]
  | .delete _ target clauses =>
    rw [Form.recast, Form.height, Form.height, heightRun_recast target,
      heightClauses_recast clauses]
  | .merge _ target ⟨_, source, conditions⟩ branches =>
    rw [Form.recast, Form.height, Form.height, heightRun_recast target,
      heightRun_recast source, heightConditions_recast conditions, heightMerge_recast branches]
  | .withQueries _ modifiers definitions _ body =>
    rw [Form.recast, Form.height, Form.height, heightRun_recast modifiers,
      heightDefinitions_recast definitions, body.height_recast]
  | .create _ object columns rest =>
    rw [Form.recast, Form.height, Form.height, heightRun_recast object,
      heightColumns_recast columns, rest.height_recast]
  | .grant _ privileges clauses =>
    rw [Form.recast, Form.height, Form.height, heightRun_recast privileges,
      heightBranches_recast clauses]
  | .raw elements => rw [Form.recast, Form.height, Form.height, heightRun_recast elements]

theorem InsertSource.height_recast (source : InsertSource) :
    (source.recast change).height = source.height := by
  match source with
  | .nothing => rfl
  | .values _ ⟨items, _⟩ tail =>
    rw [InsertSource.recast, InsertSource.height, InsertSource.height, heightRuns_recast items,
      heightTail_recast tail]
  | .statement body =>
    rw [InsertSource.recast, InsertSource.height, InsertSource.height, body.height_recast]

theorem CreateRest.height_recast (rest : CreateRest) :
    (rest.recast change).height = rest.height := by
  match rest with
  | .nothing => rfl
  | .query _ body =>
    rw [CreateRest.recast, CreateRest.height, CreateRest.height, body.height_recast]
  | .run elements =>
    rw [CreateRest.recast, CreateRest.height, CreateRest.height, heightRun_recast elements]

theorem heightMerge_recast (branches : List MergeBranch) :
    heightMerge (recastMerge change branches) = heightMerge branches := by
  match branches with
  | [] => rfl
  | ⟨_, head, action⟩ :: rest =>
    rw [recastMerge, heightMerge, heightMerge, heightRun_recast head, action.height_recast,
      heightMerge_recast rest]

theorem heightDefinitions_recast (definitions : List Definition) :
    heightDefinitions (recastDefinitions change definitions) =
      heightDefinitions definitions := by
  match definitions with
  | [] => rfl
  | ⟨head, _, modifiers, query⟩ :: rest =>
    rw [recastDefinitions, heightDefinitions, heightDefinitions, heightRun_recast head,
      heightRun_recast modifiers, query.height_recast, heightDefinitions_recast rest]

end

end Height

end Tree

end SqlLayout
