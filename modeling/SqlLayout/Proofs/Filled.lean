import SqlLayout.Proofs.Conservation

/-! What the nodes of a tree have. Parentheses that were opened for a statement hold one, every
clause is cut as its keyword asks, and the parts of a statement start with the words that they
are told apart by. Building a tree sees to all this, however little of a statement there is. -/
namespace SqlLayout.Tree

def Join.members (join : Join Element) : List Element :=
  join.source ++ join.conditions.flatMap Condition.elements ++ join.columns

def ClauseBody.members : ClauseBody Element → List Element
  | .run elements => elements
  | .projection modifiers columns => modifiers ++ columns.items.flatten
  | .sources tables joins => tables.items.flatten ++ joins.flatMap Join.members
  | .predicate conditions => conditions.flatMap Condition.elements
  | .list entries => entries.items.flatten

/-- A clause is cut as its keyword asks. The rows of an INSERT are no clause. -/
structure Clause.Shaped (clause : Clause Element) : Prop where
  cut : ∃ elements, clause.body = clauseBody (clause.keyword.map Token.contents) elements
  noRows : ∀ keyword, clause.keyword = some keyword → keyword.contents ≠ "VALUES"

def Distinct (tokens : List Token) : Prop :=
  ∀ first ∈ tokens, ∀ second ∈ tokens, first.start = second.start → first = second

theorem Distinct.of_subset {first second : List Token} (distinct : Distinct second)
    (subset : first ⊆ second) : Distinct first :=
  fun one memberOne two memberTwo => distinct one (subset memberOne) two (subset memberTwo)

theorem Distinct.inTextOrder_eq {first second : List Token} (distinct : Distinct second)
    (same : ∀ token, token ∈ first ↔ token ∈ second) : inTextOrder first = inTextOrder second :=
  Tree.inTextOrder_eq first _ (ascending_inTextOrder second) fun token =>
    (same token).trans (mem_inTextOrder second distinct token).symm

mutual

inductive Element.Filled : Element → Prop where
  | token (token : Token) : Element.Filled (.token token)
  | group (inner : Group) (filled : inner.Filled) : Element.Filled (.group inner)
  | case (inner : Case Element) (operand : ∀ element ∈ inner.operand, element.Filled)
      (branches : ∀ branch ∈ inner.branches, ∀ element ∈ branch.elements, element.Filled) :
      Element.Filled (.case inner)

/-- A group has its statement if it was opened for one. -/
inductive Group.Filled : Group → Prop where
  | intro (group : Group) (held : group.isSubquery = true → group.body ≠ none)
      (body : ∀ statement, group.body = some statement → statement.Filled)
      (elements : ∀ element ∈ group.elements, element.Filled)
      (items : ∀ item ∈ group.items, ∀ element ∈ item, element.Filled) : Group.Filled group

inductive Statement.Filled : Statement → Prop where
  | intro (statement : Statement) (form : statement.form.Filled) : Statement.Filled statement

inductive Form.Filled : Form → Prop where
  | query (clauses : List (Clause Element)) (shaped : ∀ clause ∈ clauses, clause.Shaped)
      (members : ∀ clause ∈ clauses, ∀ element ∈ clause.body.members, element.Filled) :
      Form.Filled (.query clauses)
  | insert (keyword : Token) (target : List Element) (columns : Option Group)
      (source : InsertSource) (targets : ∀ element ∈ target, element.Filled)
      (group : ∀ group, columns = some group → group.Filled)
      (names : ∀ group, columns = some group → Distinct (collectRuns group.items))
      (rows : source.Filled) : Form.Filled (.insert keyword target columns source)
  | update (keyword : Token) (target : List Element) (clauses : List (Clause Element))
      (targets : ∀ element ∈ target, element.Filled)
      (shaped : ∀ clause ∈ clauses, clause.Shaped)
      (members : ∀ clause ∈ clauses, ∀ element ∈ clause.body.members, element.Filled) :
      Form.Filled (.update keyword target clauses)
  | delete (keyword : Token) (target : List Element) (clauses : List (Clause Element))
      (targets : ∀ element ∈ target, element.Filled)
      (shaped : ∀ clause ∈ clauses, clause.Shaped)
      (members : ∀ clause ∈ clauses, ∀ element ∈ clause.body.members, element.Filled) :
      Form.Filled (.delete keyword target clauses)
  | merge (keyword : Token) (target : List Element) (source : MergeSource)
      (branches : List MergeBranch) (targets : ∀ element ∈ target, element.Filled)
      (begins : source.keyword.isKeyword ["USING"] = true)
      (sources : ∀ element ∈ source.source, element.Filled)
      (conditions : ∀ condition ∈ source.conditions, ∀ element ∈ condition.elements,
        element.Filled)
      (apart : ∀ branch ∈ branches, branch.keyword.isKeyword ["USING"] = false)
      (heads : ∀ branch ∈ branches, ∀ element ∈ branch.head, element.Filled)
      (kinds : ∀ branch ∈ branches, branch.action.isAction = true)
      (actions : ∀ branch ∈ branches, branch.action.Filled) :
      Form.Filled (.merge keyword target source branches)
  | withQueries (keyword : Token) (modifiers : List Element) (definitions : List Definition)
      (commas : List Token) (body : Statement) (words : ∀ element ∈ modifiers, element.Filled)
      (heads : ∀ definition ∈ definitions, ∀ element ∈ definition.head, element.Filled)
      (others : ∀ definition ∈ definitions, ∀ element ∈ definition.modifiers, element.Filled)
      (queries : ∀ definition ∈ definitions, definition.query.Filled) (last : body.Filled) :
      Form.Filled (.withQueries keyword modifiers definitions commas body)
  | create (keyword : Token) (object : List Element) (columns : Option Group) (rest : CreateRest)
      (objects : ∀ element ∈ object, element.Filled)
      (group : ∀ group, columns = some group → group.Filled) (after : rest.Filled) :
      Form.Filled (.create keyword object columns rest)
  | grant (keyword : Token) (privileges : List Element) (clauses : List (Branch Element))
      (words : ∀ element ∈ privileges, element.Filled)
      (branches : ∀ branch ∈ clauses, ∀ element ∈ branch.elements, element.Filled) :
      Form.Filled (.grant keyword privileges clauses)
  | raw (elements : List Element) (all : ∀ element ∈ elements, element.Filled) :
      Form.Filled (.raw elements)

inductive InsertSource.Filled : InsertSource → Prop where
  | nothing : InsertSource.Filled .nothing
  | values (keyword : Token) (rows : Items Element) (tail : Option (Branch Element))
      (begins : keyword.isKeyword ["VALUES"] = true)
      (items : ∀ item ∈ rows.items, ∀ element ∈ item, element.Filled)
      (reserved : ∀ branch, tail = some branch → branch.keyword.isReserved = true)
      (after : ∀ branch, tail = some branch → ∀ element ∈ branch.elements, element.Filled) :
      InsertSource.Filled (.values keyword rows tail)
  | statement (body : Statement) (filled : body.Filled) : InsertSource.Filled (.statement body)

inductive CreateRest.Filled : CreateRest → Prop where
  | nothing : CreateRest.Filled .nothing
  | query (keyword : Token) (body : Statement) (begins : keyword.isKeyword ["AS"] = true)
      (filled : body.Filled) : CreateRest.Filled (.query keyword body)
  | run (elements : List Element) (all : ∀ element ∈ elements, element.Filled) :
      CreateRest.Filled (.run elements)

end

theorem Element.Filled.inner {inner : Group} (filled : (Element.group inner).Filled) :
    inner.Filled := by
  cases filled with
  | group _ filled => exact filled

namespace Group.Filled

variable {group : Group}

theorem elements (filled : group.Filled) : ∀ element ∈ group.elements, element.Filled := by
  cases filled with
  | intro _ _ _ elements _ => exact elements

theorem items (filled : group.Filled) :
    ∀ item ∈ group.items, ∀ element ∈ item, element.Filled := by
  cases filled with
  | intro _ _ _ _ items => exact items

theorem exists_body (filled : group.Filled) (isSubquery : group.isSubquery = true) :
    ∃ statement, group.body = some statement ∧ statement.Filled := by
  cases filled with
  | intro _ held body _ _ =>
    obtain ⟨statement, isBody⟩ := Option.ne_none_iff_exists'.1 (held isSubquery)
    exact ⟨statement, isBody, body statement isBody⟩

end Group.Filled

/-- Elements with all that their nodes are to have, and with no other tokens than these. -/
def Among (tokens : List Token) (elements : List Element) : Prop :=
  ∀ element ∈ elements, element.Filled ∧ element.collect ⊆ tokens

namespace Among

variable {tokens : List Token} {elements others : List Element}

theorem of_subset (among : Among tokens elements) (subset : others ⊆ elements) :
    Among tokens others :=
  fun element member => among element (subset member)

theorem filled (among : Among tokens elements) : ∀ element ∈ elements, element.Filled :=
  fun element member => (among element member).1

theorem collect (among : Among tokens elements) : collectRun elements ⊆ tokens := by
  intro token member
  obtain ⟨element, inside, held⟩ := (mem_collectRun elements token).1 member
  exact (among element inside).2 held

end Among

theorem splitItems_flatten (elements : List Element) :
    (splitItems elements).items.flatten ⊆ elements := by
  intro element member
  obtain ⟨item, inside, held⟩ := List.mem_flatten.1 member
  exact items_subset elements item inside held

theorem cutConditions_elements (between : Bool) (elements : List Element) :
    (cutConditions between elements).1 ++
      (cutConditions between elements).2.flatMap Condition.elements ⊆ elements := by
  intro element member
  rw [← cutConditions_flatten between elements]
  rcases List.mem_append.1 member with front | behind
  · exact List.mem_append_left _ front
  · obtain ⟨condition, inside, held⟩ := List.mem_flatMap.1 behind
    exact List.mem_append_right _
      (List.mem_flatMap.2 ⟨condition, inside, List.mem_append_right _ held⟩)

theorem splitConditions_elements (elements : List Element) :
    (splitConditions elements).flatMap Condition.elements ⊆ elements := by
  unfold splitConditions
  split
  · exact List.nil_subset _
  · exact cutConditions_elements false elements

theorem cutAt_elements (opens : Token → List Element → Bool) (elements : List Element) :
    (cutAt opens elements).1 ++ (cutAt opens elements).2.flatMap Branch.elements ⊆ elements := by
  intro element member
  rw [← cutAt_flatten opens elements]
  rcases List.mem_append.1 member with front | behind
  · exact List.mem_append_left _ front
  · obtain ⟨branch, inside, held⟩ := List.mem_flatMap.1 behind
    exact List.mem_append_right _
      (List.mem_flatMap.2 ⟨branch, inside, List.mem_cons_of_mem _ held⟩)

theorem joinOf_members (branch : Branch Element) : (joinOf branch).members ⊆ branch.elements := by
  have front : branch.elements.takeWhile (fun element => !element.isKeyword ["ON", "USING"]) ⊆
      branch.elements := (List.takeWhile_sublist _).subset
  have behind : branch.elements.dropWhile (fun element => !element.isKeyword ["ON", "USING"]) ⊆
      branch.elements := (List.dropWhile_sublist _).subset
  unfold joinOf
  simp only
  split
  · rename_i link rest found
    rw [found, List.cons_subset] at behind
    split
    · refine List.append_subset.2 ⟨List.append_subset.2 ⟨front, ?_⟩, List.nil_subset _⟩
      exact fun element member => behind.2 (cutConditions_elements false rest member)
    · rw [Join.members, List.flatMap_nil, List.append_nil, List.append_subset, List.cons_subset]
      exact ⟨front, behind⟩
  · rw [Join.members, List.flatMap_nil, List.append_nil, List.append_nil]
    exact front

theorem clauseBody_members (keyword : Option String) (elements : List Element) :
    (clauseBody keyword elements).members ⊆ elements := by
  unfold clauseBody
  cases keyword with
  | none => exact List.Subset.refl _
  | some word =>
    simp only
    split
    · have parts := splitModifiers_append false elements
      conv_rhs => rw [← parts]
      exact List.append_subset.2 ⟨List.subset_append_left _ _,
        List.Subset.trans (splitItems_flatten _) (List.subset_append_right _ _)⟩
    split
    · have parts := List.append_subset.1
        (cutAt_elements (fun token _ => isJoinKeyword token) elements)
      refine List.append_subset.2 ⟨List.Subset.trans (splitItems_flatten _) parts.1, ?_⟩
      intro element member
      obtain ⟨join, inside, held⟩ := List.mem_flatMap.1 member
      obtain ⟨branch, from_, rfl⟩ := List.mem_map.1 inside
      exact parts.2 (List.mem_flatMap.2 ⟨branch, from_, joinOf_members branch held⟩)
    split
    · exact splitConditions_elements elements
    split
    · exact splitItems_flatten elements
    · exact List.Subset.refl _

theorem clauseOf_shaped (keyword : Option Token) (elements : List Element)
    (noRows : ∀ token, keyword = some token → token.contents ≠ "VALUES") :
    (clauseOf keyword elements).Shaped ∧ (clauseOf keyword elements).body.members ⊆ elements :=
  ⟨⟨⟨elements, rfl⟩, noRows⟩, clauseBody_members _ elements⟩

theorem splitClauses_shaped (keywords : List String) (noRows : "VALUES" ∉ keywords)
    (elements : List Element) (clause : Clause Element)
    (member : clause ∈ splitClauses keywords elements) :
    clause.Shaped ∧ clause.body.members ⊆ elements := by
  have whole := cutClauses_flatten keywords elements
  have named (branch : Branch Element) (inside : branch ∈ (cutClauses keywords elements).2) :
      (clauseOf (some branch.keyword) branch.elements).Shaped ∧
        (clauseOf (some branch.keyword) branch.elements).body.members ⊆ elements := by
    have shaped := clauseOf_shaped (some branch.keyword) branch.elements ?_
    · refine ⟨shaped.1, List.Subset.trans shaped.2 fun element held => ?_⟩
      rw [← whole]
      exact List.mem_append_right _
        (List.mem_flatMap.2 ⟨branch, inside, List.mem_cons_of_mem _ held⟩)
    · rintro token ⟨⟩ rows
      rcases cutClauses_keyword keywords elements branch inside with among | isWith
      · exact noRows (rows ▸ among)
      · simp [rows] at isWith
  have ofNamed (inside : clause ∈ (cutClauses keywords elements).2.map fun branch =>
      clauseOf (some branch.keyword) branch.elements) :
      clause.Shaped ∧ clause.body.members ⊆ elements := by
    obtain ⟨branch, held, rfl⟩ := List.mem_map.1 inside
    exact named branch held
  unfold splitClauses at member
  simp only at member
  split at member
  · exact ofNamed member
  · rcases List.mem_cons.1 member with rfl | later
    · have shaped := clauseOf_shaped none (cutClauses keywords elements).1 (by simp)
      refine ⟨shaped.1, List.Subset.trans shaped.2 ?_⟩
      conv_rhs => rw [← whole]
      exact List.subset_append_left _ _
    · exact ofNamed later

theorem clauses_shaped (tokens : List Token) (keywords : List String)
    (noRows : "VALUES" ∉ keywords) (elements : List Element) (among : Among tokens elements) :
    (Build.clauses keywords elements).Yields fun clauses =>
      (∀ clause ∈ clauses, clause.Shaped) ∧
        ∀ clause ∈ clauses, ∀ element ∈ clause.body.members, element.Filled := by
  have shaped := splitClauses_shaped keywords noRows elements
  have all : (∀ clause ∈ splitClauses keywords elements, clause.Shaped) ∧
      ∀ clause ∈ splitClauses keywords elements, ∀ element ∈ clause.body.members,
        element.Filled :=
    ⟨fun clause member => (shaped clause member).1, fun clause member element held =>
      (among element ((shaped clause member).2 held)).1⟩
  unfold Build.clauses
  simp only
  split
  · exact (Build.Yields.any _).bind fun _ _ => .pure _ all
  · exact .pure _ all

section Forms

variable {tokens : List Token}

theorem Group.Filled.asTuple {group : Group} (filled : group.Filled) : group.asTuple.Filled := by
  cases filled with
  | intro _ held body elements items =>
    refine .intro group.asTuple (by simp [Group.asTuple, Group.isSubquery]) body elements ?_
    intro item member element inside
    exact elements element (items_subset group.elements item member inside)

theorem asTuple_collect (group : Group) : group.asTuple.collect ⊆ group.collect := by
  intro token member
  have items := (mem_splitItems group.elements token).1
  rw [collect_group] at member ⊢
  simp only [Group.asTuple, List.mem_append, List.mem_cons] at member ⊢
  grind

theorem Among.asTuple {elements : List Element} (among : Among tokens elements) :
    Among tokens (elements.map Element.asTuple) := by
  intro element member
  obtain ⟨original, inside, rfl⟩ := List.mem_map.1 member
  obtain ⟨filled, collect⟩ := among original inside
  cases filled with
  | token word => exact ⟨.token word, collect⟩
  | case inner operand branches => exact ⟨.case inner operand branches, collect⟩
  | group inner filled =>
    exact ⟨.group _ filled.asTuple, List.Subset.trans (asTuple_collect inner) collect⟩

theorem Among.asRow {elements : List Element} (among : Among tokens elements) :
    ∀ element ∈ elements.map Element.asRow, element.Filled := by
  intro element member
  obtain ⟨original, inside, rfl⟩ := List.mem_map.1 member
  have filled := (among original inside).1
  cases filled with
  | token word => exact .token word
  | case inner operand branches => exact .case inner operand branches
  | group inner filled =>
    rw [Element.asRow]
    split
    · exact .group inner filled
    · exact .group _ filled.asTuple

theorem takeColumns_filled {elements : List Element} (distinct : Distinct tokens)
    (among : Among tokens elements) (group : Group)
    (columns : (takeColumns elements).1 = some group) :
    group.Filled ∧ Distinct (collectRuns group.items) := by
  unfold takeColumns at columns
  split at columns
  · rename_i inner rest
    split at columns
    · simp at columns
    · obtain rfl := Option.some.inj columns
      obtain ⟨filled, collect⟩ := among (.group inner) (by simp)
      refine ⟨filled.inner.asTuple, distinct.of_subset fun token member => ?_⟩
      refine collect (asTuple_collect inner ?_)
      rw [collect_group]
      simp [member]
  · simp at columns

def Reader.Fills (tokens : List Token) (next : Reader) : Prop :=
  ∀ elements, Among tokens elements → (next elements).Yields Statement.Filled

theorem filled_valuesSource (keyword : Token) (rest : List Element) (among : Among tokens rest)
    (begins : keyword.isKeyword ["VALUES"] = true) : (valuesSource keyword rest).Filled := by
  have front : rest.takeWhile (fun element => !element.isReserved) ⊆ rest :=
    (List.takeWhile_sublist _).subset
  have behind : rest.dropWhile (fun element => !element.isReserved) ⊆ rest :=
    (List.dropWhile_sublist _).subset
  have rows (item : List Element) (member : item ∈ (splitItems
      (rest.takeWhile fun element => !element.isReserved)).items.map (·.map Element.asRow)) :
      ∀ element ∈ item, element.Filled := by
    obtain ⟨original, inside, rfl⟩ := List.mem_map.1 member
    exact Among.asRow (among.of_subset (List.Subset.trans (items_subset _ original inside) front))
  unfold valuesSource
  rcases dropWhile_eq_nil_or_cons Token.isReserved rest with nothing | ⟨word, after, kind, found⟩
  · have left : rest.dropWhile (fun element => !element.isReserved) = [] := nothing
    rw [left]
    exact .values keyword _ none begins rows (by simp) (by simp)
  · have left : rest.dropWhile (fun element => !element.isReserved) = .token word :: after := found
    rw [left, List.cons_subset] at behind
    rw [left]
    refine .values keyword _ (some ⟨word, after⟩) begins rows ?_ ?_
    · rintro branch ⟨⟩
      exact kind
    · rintro branch ⟨⟩
      exact (among.of_subset behind.2).filled

theorem filled_raw {elements : List Element} (among : Among tokens elements) :
    (pure (.raw elements) : Build Form).Yields Form.Filled :=
  .pure _ (.raw elements among.filled)

variable {next : Reader} {rest : List Element} (keyword : Token)

theorem filled_insertForm (reads : next.Fills tokens) (distinct : Distinct tokens)
    (among : Among tokens rest) : (insertForm next keyword rest).Yields Form.Filled := by
  unfold insertForm
  simp only
  generalize (fun element : Element =>
    !(element.isGroup || element.isKeyword ["VALUES", "SELECT", "WITH", "DEFAULT"])) = endsTarget
  have target := (among.of_subset (List.takeWhile_sublist endsTarget).subset).filled
  have left := among.of_subset (List.dropWhile_sublist endsTarget).subset
  have columned := takeColumns_filled distinct left
  have amongAfter := left.of_subset (takeColumns_subset (rest.dropWhile endsTarget))
  generalize takeColumns (rest.dropWhile endsTarget) = parts at columned amongAfter ⊢
  obtain ⟨columns, after⟩ := parts
  have finish (source : InsertSource) (filled : source.Filled) :
      Form.Filled (.insert keyword (rest.takeWhile endsTarget) columns source) :=
    .insert keyword _ columns source target (fun group made => (columned group made).1)
      (fun group made => (columned group made).2) filled
  have statement : (next after >>= fun body => (pure (.insert keyword (rest.takeWhile endsTarget)
      columns (.statement body)) : Build Form)).Yields Form.Filled :=
    (reads after amongAfter).bind fun body filled => .pure _ (finish _ (.statement body filled))
  simp only
  split
  · exact .pure _ (finish .nothing .nothing)
  · rename_i word values
    split
    · rename_i begins
      exact .pure _ (finish _ (filled_valuesSource word values
        (amongAfter.of_subset (List.subset_cons_self _ _)) begins))
    · exact statement
  · exact statement

theorem filled_updateForm (keyed : Among tokens (.token keyword :: rest)) :
    (updateForm keyword rest).Yields Form.Filled := by
  have among := keyed.of_subset (List.subset_cons_self _ _)
  unfold updateForm
  simp only
  split
  · exact filled_raw keyed
  · refine (clauses_shaped tokens updateClauses (by decide) _
      (among.of_subset (List.dropWhile_sublist _).subset)).bind fun clauses shaped => .pure _ ?_
    exact .update keyword _ clauses (among.of_subset (List.takeWhile_sublist _).subset).filled
      shaped.1 shaped.2

theorem filled_deleteForm (among : Among tokens rest) :
    (deleteForm keyword rest).Yields Form.Filled := by
  unfold deleteForm
  simp only
  generalize (if rest.head?.any (Element.isKeyword ["FROM"]) then 1 else 0) +
    (cutAt (opensClause queryClauses)
      (rest.drop (if rest.head?.any (Element.isKeyword ["FROM"]) then 1 else 0))).1.length = size
  refine (clauses_shaped tokens queryClauses (by decide) _
    (among.of_subset (List.drop_subset size rest))).bind fun clauses shaped => .pure _ ?_
  exact .delete keyword _ clauses (among.of_subset (List.take_subset size rest)).filled shaped.1
    shaped.2

theorem filled_grantForm (among : Among tokens rest) : (grantForm keyword rest).Filled := by
  have parts := List.append_subset.1
    (cutAt_elements (fun token _ => token.isKeyword ["ON", "TO", "FROM"]) rest)
  refine .grant keyword _ _ (among.of_subset parts.1).filled ?_
  intro branch member element held
  exact (among element (parts.2 (List.mem_flatMap.2 ⟨branch, member, held⟩))).1

theorem filled_createForm (reads : next.Fills tokens) (distinct : Distinct tokens)
    (keyed : Among tokens (.token keyword :: rest)) :
    (createForm next keyword rest).Yields Form.Filled := by
  have among := keyed.of_subset (List.subset_cons_self _ _)
  unfold createForm
  simp only
  generalize (fun element : Element => !(element.isGroup || element.isKeyword ["AS"])) = endsObject
  have object := (among.of_subset (List.takeWhile_sublist endsObject).subset).filled
  have left := among.of_subset (List.dropWhile_sublist endsObject).subset
  have columned := takeColumns_filled distinct left
  have amongAfter := left.of_subset (takeColumns_subset (rest.dropWhile endsObject))
  generalize takeColumns (rest.dropWhile endsObject) = parts at columned amongAfter ⊢
  obtain ⟨columns, after⟩ := parts
  have finish (left : CreateRest) (filled : left.Filled) :
      Form.Filled (.create keyword (rest.takeWhile endsObject) columns left) :=
    .create keyword _ columns left object (fun group made => (columned group made).1) filled
  simp only
  split
  · split
    · exact .pure _ (finish .nothing .nothing)
    · rename_i word query
      split
      · rename_i begins
        refine (reads query (amongAfter.of_subset (List.subset_cons_self _ _))).bind
          fun body filled => .pure _ (finish _ (.query word body begins filled))
      · exact .pure _ (finish _ (.run _ amongAfter.filled))
    · exact .pure _ (finish _ (.run _ amongAfter.filled))
  · exact filled_raw keyed

theorem yields_isAction (next : Reader) (rest : List Element) :
    (insertForm next keyword rest).Yields fun form => form.isAction = true := by
  unfold insertForm
  simp only
  split
  · exact .pure _ rfl
  · split
    · exact .pure _ rfl
    · exact (Build.Yields.any _).bind fun _ _ => .pure _ rfl
  · exact (Build.Yields.any _).bind fun _ _ => .pure _ rfl

theorem filled_mergeAction (reads : next.Fills tokens) (distinct : Distinct tokens)
    (elements : List Element) (among : Among tokens elements) :
    (mergeAction next elements).Yields fun form => form.isAction = true ∧ form.Filled := by
  have raw : (pure (.raw elements) : Build Form).Yields
      fun form => form.isAction = true ∧ form.Filled :=
    .pure _ ⟨rfl, .raw elements among.filled⟩
  unfold mergeAction
  split
  · rename_i keyword rest
    have amongRest := among.of_subset (List.subset_cons_self _ _)
    split
    · refine (clauses_shaped tokens (updateClauses ++ ["DELETE"]) (by decide) rest amongRest).bind
        fun clauses shaped => .pure _ ⟨rfl, ?_⟩
      exact .update keyword [] clauses (by simp) shaped.1 shaped.2
    split
    · exact (yields_isAction keyword next rest).both
        (filled_insertForm keyword reads distinct amongRest)
    · exact raw
  · exact raw

theorem mergeParts_when (elements : List Element)
    (starts : ∀ first ∈ elements.head?, first.isKeyword ["WHEN"] = true) :
    ∀ part ∈ mergeParts elements, part.1.isKeyword ["WHEN"] = true ∧
      part.2.1 ++ part.2.2 ⊆ elements := by
  fun_induction mergeParts elements with
  | case1 keyword rest isThen isWhen afterHead head actions ih =>
    have behind : actions ⊆ rest :=
      List.Subset.trans (List.drop_subset 1 afterHead) (List.dropWhile_sublist _).subset
    refine List.forall_mem_cons.2 ⟨⟨starts _ rfl, ?_⟩, fun part member => ?_⟩
    · refine List.append_subset.2 ⟨List.append_subset.2 ⟨?_, ?_⟩, ?_⟩
      · exact List.Subset.trans (List.takeWhile_sublist _).subset (List.subset_cons_self _ _)
      · exact List.Subset.trans (List.take_subset 1 afterHead)
          (List.Subset.trans (List.dropWhile_sublist _).subset (List.subset_cons_self _ _))
      · exact List.Subset.trans (List.takeWhile_sublist _).subset
          (List.Subset.trans behind (List.subset_cons_self _ _))
    · have onward := ih (fun first found => ?_) part member
      · refine ⟨onward.1, List.Subset.trans onward.2 (List.Subset.trans
          (List.dropWhile_sublist _).subset (List.Subset.trans behind (List.subset_cons_self _ _)))⟩
      · have stops := List.head?_dropWhile_not (fun element => !isWhen element) actions
        rw [Option.mem_def.1 found] at stops
        simpa using stops
  | case2 => simp

theorem filled_mergeBranches (reads : next.Fills tokens) (distinct : Distinct tokens)
    (parts : List (Token × List Element × List Element))
    (begins : ∀ part ∈ parts, part.1.isKeyword ["WHEN"] = true)
    (among : ∀ part ∈ parts, Among tokens (part.2.1 ++ part.2.2)) :
    (mergeBranches next parts).Yields fun branches =>
      ∀ branch ∈ branches, branch.keyword.isKeyword ["USING"] = false ∧
        (∀ element ∈ branch.head, element.Filled) ∧ branch.action.isAction = true ∧
        branch.action.Filled := by
  induction parts with
  | nil => exact .pure _ (by simp)
  | cons part rest ih =>
    obtain ⟨word, head, action⟩ := part
    have own := among ⟨word, head, action⟩ (by simp)
    refine (filled_mergeAction reads distinct action
      (own.of_subset (List.subset_append_right _ _))).bind ?_
    rintro form ⟨isAction, filled⟩
    refine (ih (fun part member => begins part (List.mem_cons_of_mem _ member))
      fun part member => among part (List.mem_cons_of_mem _ member)).bind fun others held => ?_
    refine .pure _ (List.forall_mem_cons.2 ⟨⟨?_, ?_, isAction, filled⟩, held⟩)
    · have isWhen := begins ⟨word, head, action⟩ (by simp)
      simp only [Token.isKeyword, Bool.and_eq_true, List.contains_iff_mem,
        List.mem_singleton] at isWhen
      simp [Token.isKeyword, isWhen.2]
    · exact (own.of_subset (List.subset_append_left _ _)).filled

theorem filled_mergeForm (reads : next.Fills tokens) (distinct : Distinct tokens)
    (keyed : Among tokens (.token keyword :: rest)) :
    (mergeForm next keyword rest).Yields Form.Filled := by
  have among := keyed.of_subset (List.subset_cons_self _ _)
  unfold mergeForm
  simp only
  split
  · rename_i usingWord after found
    have behind := among.of_subset
      (List.dropWhile_sublist (fun element => !element.isKeyword ["USING"])).subset
    have begins := List.head?_dropWhile_not (fun element : Element => !element.isKeyword ["USING"]) rest
    rw [found] at behind begins
    have amongAfter := behind.of_subset (List.subset_cons_self _ _)
    have finish (conditions : List (Condition Element)) (branches : List Element)
        (held : conditions.flatMap Condition.elements ⊆ after) (subset : branches ⊆ after)
        (starts : ∀ first ∈ branches.head?, first.isKeyword ["WHEN"] = true) :
        (do
          let found ← mergeBranches next (mergeParts branches)
          return Form.merge keyword (rest.takeWhile fun element => !element.isKeyword ["USING"])
            ⟨usingWord, after.takeWhile fun element => !element.isKeyword ["ON", "WHEN"],
              conditions⟩ found : Build Form).Yields Form.Filled := by
      have parts := mergeParts_when branches starts
      refine (filled_mergeBranches reads distinct (mergeParts branches)
        (fun part member => (parts part member).1) fun part member =>
          (amongAfter.of_subset subset).of_subset (parts part member).2).bind
        fun found held' => .pure _ ?_
      refine .merge keyword _ _ found (among.of_subset (List.takeWhile_sublist _).subset).filled
        (by simpa [Element.isKeyword, Element.isTokenWith, Element.token?] using begins)
        (amongAfter.of_subset (List.takeWhile_sublist _).subset).filled ?_
        (fun branch member => (held' branch member).1)
        (fun branch member => (held' branch member).2.1)
        (fun branch member => (held' branch member).2.2.1)
        (fun branch member => (held' branch member).2.2.2)
      intro condition member element inside
      exact (amongAfter element (held (List.mem_flatMap.2 ⟨condition, member, inside⟩))).1
    have left : after.dropWhile (fun element => !element.isKeyword ["ON", "WHEN"]) ⊆ after :=
      (List.dropWhile_sublist _).subset
    rcases dropWhile_eq_nil_or_cons (Token.isKeyword · ["ON", "WHEN"]) after with
      nothing | ⟨word, others, either, behindSource⟩
    · have ends : after.dropWhile (fun element => !element.isKeyword ["ON", "WHEN"]) = [] := nothing
      rw [ends]
      exact finish [] [] (by simp) (by simp) (by simp)
    · have ends : after.dropWhile (fun element => !element.isKeyword ["ON", "WHEN"]) =
          .token word :: others := behindSource
      rw [ends] at left ⊢
      have within := List.cons_subset.1 left
      simp only
      split
      · refine finish _ _ ?_ (List.Subset.trans (List.dropWhile_sublist _).subset within.2) ?_
        · exact List.Subset.trans (cutConditions_elements false _)
            (List.Subset.trans (List.takeWhile_sublist _).subset within.2)
        · intro first isFirst
          have stops := List.head?_dropWhile_not
            (fun element : Element => !element.isKeyword ["WHEN"]) others
          rw [Option.mem_def.1 isFirst] at stops
          simpa using stops
      · rename_i notOn
        refine finish [] _ (by simp) left ?_
        simp only [Token.isKeyword, Bool.and_eq_true, List.contains_iff_mem, List.mem_cons,
          List.not_mem_nil, or_false, notOn, false_or] at either
        simp [Element.isKeyword, Element.isTokenWith, Element.token?, Token.isKeyword, either]
  · exact filled_raw keyed

theorem filled_definition (elements : List Element) (among : Among tokens elements)
    (found : Definition) (after : List Element)
    (step : definition elements = .ok (found, after)) :
    after ⊆ elements ∧ (∀ element ∈ found.head, element.Filled) ∧
      (∀ element ∈ found.modifiers, element.Filled) ∧ found.query.Filled := by
  unfold definition at step
  simp only at step
  split at step
  · rename_i word tail afterAs
    split at step
    · rename_i query rest afterModifiers
      simp only [Except.ok.injEq, Prod.mk.injEq] at step
      obtain ⟨rfl, rfl⟩ := step
      have first : elements.dropWhile (fun element => !element.isKeyword ["AS"]) ⊆ elements :=
        (List.dropWhile_sublist _).subset
      have second : tail.dropWhile (fun element =>
          element.isText "NOT" || element.isText "MATERIALIZED") ⊆ tail :=
        (List.dropWhile_sublist _).subset
      rw [afterAs, List.cons_subset] at first
      rw [afterModifiers, List.cons_subset] at second
      refine ⟨List.Subset.trans second.2 first.2, ?_, ?_, ?_⟩
      · exact (among.of_subset (List.takeWhile_sublist _).subset).asTuple.filled
      · exact (among.of_subset
          (List.Subset.trans (List.takeWhile_sublist _).subset first.2)).filled
      · exact (among (.group query) (first.2 second.1)).1.inner
    · simp at step
  · simp at step

theorem filled_definitions (elements : List Element) (among : Among tokens elements)
    (found : List Definition) (commas : List Token) (after : List Element)
    (step : definitions elements = .ok (found, commas, after)) :
    after ⊆ elements ∧ ∀ one ∈ found, (∀ element ∈ one.head, element.Filled) ∧
      (∀ element ∈ one.modifiers, element.Filled) ∧ one.query.Filled := by
  fun_induction definitions elements generalizing found commas after with
  | case1 elements empty =>
    simp only [Except.ok.injEq, Prod.mk.injEq] at step
    obtain ⟨rfl, rfl, rfl⟩ := step
    exact ⟨List.nil_subset _, by simp⟩
  | case2 elements filled misfit failed => simp at step
  | case3 elements filled first comma rest one isComma misfit failed ih => simp at step
  | case4 elements filled first comma rest one isComma others moreCommas left more ih =>
    simp only [Except.ok.injEq, Prod.mk.injEq] at step
    obtain ⟨rfl, rfl, rfl⟩ := step
    obtain ⟨subset, head⟩ := filled_definition elements among first _ one
    have behind := List.Subset.trans (List.subset_cons_self (.token comma) rest) subset
    obtain ⟨subsetRest, onward⟩ := ih (among.of_subset behind) _ _ _ more
    exact ⟨List.Subset.trans subsetRest behind, List.forall_mem_cons.2 ⟨head, onward⟩⟩
  | case5 elements filled first comma rest one isComma =>
    simp only [Except.ok.injEq, Prod.mk.injEq] at step
    obtain ⟨rfl, rfl, rfl⟩ := step
    obtain ⟨subset, head⟩ := filled_definition elements among first _ one
    exact ⟨subset, List.forall_mem_cons.2 ⟨head, by simp⟩⟩
  | case6 elements filled first rest other one =>
    simp only [Except.ok.injEq, Prod.mk.injEq] at step
    obtain ⟨rfl, rfl, rfl⟩ := step
    obtain ⟨subset, head⟩ := filled_definition elements among first _ one
    exact ⟨subset, List.forall_mem_cons.2 ⟨head, by simp⟩⟩

theorem filled_withForm (reads : next.Fills tokens) (among : Among tokens rest) :
    (withForm next keyword rest).Yields Form.Filled := by
  have finish (modifiers others : List Element) (front : modifiers ⊆ rest)
      (behind : others ⊆ rest) :
      (do
        let parts ← definitions others
        let body ← next parts.2.2
        return Form.withQueries keyword modifiers parts.1 parts.2.1 body : Build Form).Yields
          Form.Filled := by
    have amongOthers := among.of_subset behind
    refine (Build.Yields.lift (definitions others) fun parts step =>
      filled_definitions others amongOthers parts.1 parts.2.1 parts.2.2 step).bind ?_
    rintro ⟨found, commas, after⟩ ⟨subset, held⟩
    refine (reads after (amongOthers.of_subset subset)).bind fun body filled => .pure _ ?_
    exact .withQueries keyword modifiers found commas body (among.of_subset front).filled
      (fun one member => (held one member).1) (fun one member => (held one member).2.1)
      (fun one member => (held one member).2.2) filled
  unfold withForm
  simp only
  split
  · exact finish _ _ (List.take_subset 1 rest) (List.drop_subset 1 rest)
  · exact finish [] rest (List.nil_subset _) (List.Subset.refl _)

theorem filled_formOf (reads : next.Fills tokens) (distinct : Distinct tokens)
    (elements : List Element) (among : Among tokens elements) :
    (formOf next elements).Yields Form.Filled := by
  have raw := filled_raw among
  have query : (do return .query (← Build.clauses queryClauses elements) : Build Form).Yields
      Form.Filled :=
    (clauses_shaped tokens queryClauses (by decide) elements among).bind
      fun clauses shaped => .pure _ (.query clauses shaped.1 shaped.2)
  unfold formOf
  split
  · rename_i first rest
    have amongRest := among.of_subset (List.subset_cons_self _ rest)
    split
    · exact filled_withForm first reads amongRest
    split
    · exact query
    split
    · exact filled_insertForm first reads distinct amongRest
    split
    · exact filled_updateForm first among
    split
    · exact filled_deleteForm first amongRest
    split
    · exact filled_mergeForm first reads distinct among
    split
    · exact filled_createForm first reads distinct among
    split
    · exact .pure _ (filled_grantForm first amongRest)
    · exact raw
  · split
    · exact query
    · exact raw
  · exact raw

theorem filled_statementWith (reads : next.Fills tokens) (distinct : Distinct tokens) :
    Reader.Fills tokens (statementWith next) := by
  intro elements among
  unfold statementWith
  simp only
  have parts := splitTrailing_append Element.isComment (elements.dropWhile Element.isComment)
  generalize splitTrailing Element.isComment (elements.dropWhile Element.isComment) = split
    at parts ⊢
  obtain ⟨body, after⟩ := split
  simp only at parts ⊢
  have inside : body ⊆ elements := by
    refine List.Subset.trans ?_ (List.dropWhile_sublist Element.isComment).subset
    rw [← parts]
    exact List.subset_append_left _ _
  exact (filled_formOf reads distinct body (among.of_subset inside)).bind
    fun form filled => .pure _ (.intro _ filled)

theorem filled_statementOf (distinct : Distinct tokens) : Reader.Fills tokens statementOf := by
  have fueled (fuel : Nat) : Reader.Fills tokens (statementFuel fuel) := by
    induction fuel with
    | zero => exact fun elements among => .pure _ (.intro _ (.raw elements among.filled))
    | succ fuel ih => exact filled_statementWith ih distinct
  intro elements
  exact fueled (elements.length + 1) elements

end Forms

section Walking

variable {tokens : List Token}

theorem among_tokens {words : List Token} (subset : words ⊆ tokens) :
    Among tokens (words.map .token) := by
  intro element member
  obtain ⟨word, inside, rfl⟩ := List.mem_map.1 member
  exact ⟨.token word, by simpa [Element.collect] using subset inside⟩

theorem Among.groupCases {elements : List Element} (among : Among tokens elements)
    (depth : Nat) : Among tokens (groupCases depth elements) := by
  fun_induction Tree.groupCases depth elements with
  | case1 => exact among
  | case2 token rest opens inner closing after found operand branches cut ihInner ihAfter =>
    have whole := untilEnd_flatten 0 rest inner after closing found
    have amongRest := among.of_subset (List.subset_cons_self _ _)
    rw [whole] at amongRest
    have amongInner := ihInner (amongRest.of_subset (List.subset_append_left _ _))
    have amongAfter := ihAfter (amongRest.of_subset fun element member =>
      List.mem_append_right _ (List.mem_cons_of_mem _ member))
    have parts := List.append_subset.1 (cutAt_elements
      (fun token _ => token.isKeyword ["WHEN", "ELSE"]) (Tree.groupCases depth inner))
    have made : cutAt (fun token _ => token.isKeyword ["WHEN", "ELSE"])
      (Tree.groupCases depth inner) = (operand, branches) := cut
    rw [made] at parts
    refine List.forall_mem_cons.2 ⟨⟨.case _ (amongInner.of_subset parts.1).filled ?_, ?_⟩,
      amongAfter⟩
    · intro branch member element held
      exact (amongInner element (parts.2 (List.mem_flatMap.2 ⟨branch, member, held⟩))).1
    · have same := collectRun_groupCases depth (.token token :: rest)
      rw [groupCases_closed depth token closing rest inner after opens found, cut, collectRun]
        at same
      exact List.Subset.trans (same ▸ List.subset_append_left _ _) among.collect
  | case3 token rest opens missing ih =>
    exact List.forall_mem_cons.2 ⟨among _ (by simp),
      ih (among.of_subset (List.subset_cons_self _ _))⟩
  | case4 token rest other ih =>
    exact List.forall_mem_cons.2 ⟨among _ (by simp),
      ih (among.of_subset (List.subset_cons_self _ _))⟩
  | case5 element rest other ih =>
    exact List.forall_mem_cons.2 ⟨among _ (by simp),
      ih (among.of_subset (List.subset_cons_self _ _))⟩

theorem filled_groupOf (vocabulary : Vocabulary) (depth : Nat) (frame : Frame)
    (content : List Element) (closing : Token) (distinct : Distinct tokens)
    (among : Among tokens content) :
    (groupOf vocabulary depth frame content closing).Yields Group.Filled := by
  unfold groupOf
  refine (Build.Yields.any _).bind fun _ _ => ?_
  simp only
  have cased := among.groupCases depth
  split
  · refine (filled_statementOf distinct _ cased).bind fun body filled => .pure _ ?_
    exact .intro _ (by simp) (by rintro _ ⟨⟩; exact filled) (by simp) (by simp)
  · refine .pure _ (.intro _ ?_ (by simp) cased.filled (by simp))
    simp only [Group.isSubquery]
    split <;> [simp; split <;> simp]

theorem filled_groupTokens (vocabulary : Vocabulary) (rest : List Token) (frames : List Frame)
    (current : List Element) (distinct : Distinct tokens)
    (frame : ∀ frame ∈ frames, frame.opening ∈ tokens ∧ Among tokens frame.before ∧
      Uncut frame.before)
    (among : Among tokens current) (uncut : Uncut current) (subset : rest ⊆ tokens) :
    (groupTokens vocabulary frames current rest).Yields (Among tokens) := by
  induction rest generalizing frames current with
  | nil =>
    cases frames with
    | nil =>
      rw [groupTokens]
      exact (Build.Yields.any _).bind fun _ _ => .pure _ (among.groupCases 0)
    | cons frame frames =>
      rw [groupTokens]
      exact .throw _
  | cons token rest ih =>
    have behind := (List.cons_subset.1 subset).2
    have isToken := (List.cons_subset.1 subset).1
    by_cases opens : token.kind = .parenOpen
    · unfold groupTokens
      rw [if_pos opens]
      refine (Build.Yields.any _).bind fun _ _ => ih _ [] ?_ (by simp [Among]) (by simp [Uncut])
        behind
      exact List.forall_mem_cons.2 ⟨⟨isToken, among, uncut⟩, frame⟩
    by_cases closes : token.kind = .parenClose
    · cases frames with
      | nil =>
        rw [groupTokens, if_neg opens, if_pos closes]
        exact .throw _
      | cons inner frames =>
        obtain ⟨⟨isOpening, before, uncutBefore⟩, outer⟩ := List.forall_mem_cons.1 frame
        rw [groupTokens, if_neg opens, if_pos closes]
        refine (Build.Yields.any _).bind fun _ _ => ?_
        refine ((filled_groupOf vocabulary frames.length inner current token distinct among).both
          (gathers_groupOf vocabulary frames.length inner current token uncut)).bind ?_
        rintro group ⟨filled, plain, gathers⟩
        refine ih frames _ outer ?_ ?_ behind
        · refine List.forall_mem_append.2 ⟨before, List.forall_mem_singleton.2
            ⟨.group group filled, fun other held => ?_⟩⟩
          have gathered := (gathers other).1 held
          simp only [List.cons_append, collectRun_token, collectRun_append, List.mem_cons,
            List.mem_append, collectRun_nil, List.not_mem_nil, or_false] at gathered
          rcases gathered with rfl | inside | rfl
          · exact isOpening
          · exact among.collect inside
          · exact isToken
        · intro other member
          rw [List.mem_append, List.mem_singleton, Element.group.injEq] at member
          rcases member with held | rfl
          · exact uncutBefore other held
          · exact plain
    · unfold groupTokens
      rw [if_neg opens, if_neg closes]
      have next : Among tokens [.token token] :=
        among_tokens (List.cons_subset.2 ⟨isToken, List.nil_subset _⟩)
      refine ih frames _ frame (List.forall_mem_append.2 ⟨among, next⟩) ?_ behind
      intro inner member
      exact uncut inner (by simpa using member)

/-- The tree of a statement has all that its nodes are to have, whatever of the statement is
there. -/
theorem filled_walk (vocabulary : Vocabulary) (tokens : List Token)
    (distinct : Distinct (countedTokens tokens)) :
    (walk vocabulary tokens).statement.Filled := by
  have built : (build vocabulary (countedTokens tokens)).Yields Statement.Filled :=
    (filled_groupTokens vocabulary (countedTokens tokens) [] [] distinct (by simp)
      (by simp [Among]) (by simp [Uncut]) (List.Subset.refl _)).bind
      fun elements among => filled_statementOf distinct elements among
  unfold walk
  simp only
  split
  · rename_i statement progress outcome
    exact built _ _ _ outcome
  · exact .intro _ (.raw _ (among_tokens (List.Subset.refl (countedTokens tokens))).filled)

end Walking

end SqlLayout.Tree
