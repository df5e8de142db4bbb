import SqlLayout.Proofs.Building

/-! What a statement is made of. The pieces of a form are the elements of all its parts; a cut
puts commas and comments elsewhere, and a group may become a tuple on the way, which is all
that building does to a run. So whatever holds of some element of a run, and does not depend
on whether a group is a tuple, holds of some piece of its statement, and the other way round. -/
namespace SqlLayout.Tree

def Branch.pieces (branch : Branch Element) : List Element :=
  .token branch.keyword :: branch.elements

def Condition.pieces (condition : Condition Element) : List Element :=
  condition.connector.toList.map .token ++ condition.elements

def Items.pieces (items : Items Element) : List Element :=
  items.items.flatten ++ items.commas.map .token

def Join.pieces (join : Join Element) : List Element :=
  .token join.keyword :: join.source ++ join.conditions.flatMap Condition.pieces ++ join.columns

def ClauseBody.pieces : ClauseBody Element → List Element
  | .run elements => elements
  | .projection modifiers columns => modifiers ++ columns.pieces
  | .sources tables joins => tables.pieces ++ joins.flatMap Join.pieces
  | .predicate conditions => conditions.flatMap Condition.pieces
  | .list entries => entries.pieces

def Clause.pieces (clause : Clause Element) : List Element :=
  clause.keyword.toList.map .token ++ clause.body.pieces

def Definition.pieces (definition : Definition) : List Element :=
  definition.head ++ .token definition.keyword :: definition.modifiers ++ [.group definition.query]

mutual

@[simp] def Statement.pieces : Statement → List Element
  | ⟨leading, form, trailing⟩ => leading.map .token ++ form.pieces ++ trailing.map .token

@[simp] def Form.pieces : Form → List Element
  | .query clauses => clauses.flatMap Clause.pieces
  | .insert keyword target columns source =>
    .token keyword :: target ++ columns.toList.map .group ++ source.pieces
  | .update keyword target clauses =>
    .token keyword :: target ++ clauses.flatMap Clause.pieces
  | .delete keyword target clauses =>
    .token keyword :: target ++ clauses.flatMap Clause.pieces
  | .merge keyword target ⟨usingWord, source, conditions⟩ branches =>
    .token keyword :: target ++ .token usingWord :: source ++
      conditions.flatMap Condition.pieces ++ piecesOfMerge branches
  | .withQueries keyword modifiers definitions commas body =>
    .token keyword :: modifiers ++ definitions.flatMap Definition.pieces ++
      commas.map .token ++ body.pieces
  | .create keyword object columns rest =>
    .token keyword :: object ++ columns.toList.map .group ++ rest.pieces
  | .grant keyword privileges clauses =>
    .token keyword :: privileges ++ clauses.flatMap Branch.pieces
  | .raw elements => elements

@[simp] def InsertSource.pieces : InsertSource → List Element
  | .nothing => []
  | .values keyword rows tail =>
    .token keyword :: rows.pieces ++ tail.toList.flatMap Branch.pieces
  | .statement body => body.pieces

@[simp] def CreateRest.pieces : CreateRest → List Element
  | .nothing => []
  | .query keyword body => .token keyword :: body.pieces
  | .run elements => elements

@[simp] def piecesOfMerge : List MergeBranch → List Element
  | [] => []
  | ⟨keyword, head, action⟩ :: rest =>
    .token keyword :: head ++ action.pieces ++ piecesOfMerge rest

end

def Occurs (property : Element → Prop) (elements : List Element) : Prop :=
  ∃ element ∈ elements, property element

section

variable {property : Element → Prop}

@[simp] theorem not_occurs_nil : ¬Occurs property [] := by
  simp [Occurs]

@[simp] theorem occurs_cons (element : Element) (rest : List Element) :
    Occurs property (element :: rest) ↔ property element ∨ Occurs property rest := by
  simp [Occurs]

@[simp] theorem occurs_append (first second : List Element) :
    Occurs property (first ++ second) ↔ Occurs property first ∨ Occurs property second := by
  simp only [Occurs, List.mem_append, or_and_right, exists_or]

/-- Whether the property holds of a group does not depend on whether it is a tuple. -/
def Stable (property : Element → Prop) (elements : List Element) : Prop :=
  ∀ inner, .group inner ∈ elements → (property (.group inner.asTuple) ↔ property (.group inner))

theorem Stable.of_subset {elements others : List Element} (stable : Stable property elements)
    (subset : others ⊆ elements) : Stable property others := by
  intro inner member
  exact stable inner (subset member)

theorem Stable.occurs_map {elements : List Element} (stable : Stable property elements)
    (change : Element → Element)
    (retags : ∀ element ∈ elements, change element = element ∨ change element = element.asTuple) :
    Occurs property (elements.map change) ↔ Occurs property elements := by
  induction elements with
  | nil => rfl
  | cons element rest ih =>
    have onward := ih (stable.of_subset (List.subset_cons_self _ _))
      fun other member => retags other (List.mem_cons_of_mem _ member)
    rw [List.map_cons, occurs_cons, occurs_cons, onward]
    refine or_congr_left ?_
    rcases retags element (by simp) with same | tuple
    · rw [same]
    · rw [tuple]
      cases element with
      | token token => rfl
      | group inner => exact stable inner (by simp)
      | case inner => rfl

theorem occurs_takeWhile (property : Element → Prop) (stops : Element → Bool)
    (elements : List Element) :
    Occurs property elements ↔
      Occurs property (elements.takeWhile stops) ∨
        Occurs property (elements.dropWhile stops) := by
  rw [← occurs_append, List.takeWhile_append_dropWhile]

theorem Stable.occurs_asTuple {elements : List Element} (stable : Stable property elements) :
    Occurs property (elements.map Element.asTuple) ↔ Occurs property elements :=
  stable.occurs_map Element.asTuple fun _ _ => .inr rfl

theorem Element.asRow_eq (element : Element) :
    element.asRow = element ∨ element.asRow = element.asTuple := by
  cases element with
  | token token => exact .inl rfl
  | case inner => exact .inl rfl
  | group inner =>
    rw [Element.asRow, Element.asTuple]
    split
    · exact .inl rfl
    · exact .inr rfl

theorem moveLineComments_flatten (carried : List Element) (items : List (List Element))
    (filled : items ≠ []) : (moveLineComments carried items).flatten = carried ++ items.flatten := by
  induction items generalizing carried with
  | nil => exact absurd rfl filled
  | cons item rest ih =>
    cases rest with
    | nil => simp [moveLineComments]
    | cons next others =>
      have parts := splitTrailing_append Element.isLineComment (carried ++ item)
      simp only [moveLineComments]
      rw [List.flatten_cons, ih _ (List.cons_ne_nil next others), ← List.append_assoc, parts,
        List.append_assoc]
      rfl

theorem occurs_splitItems (property : Element → Prop) (elements : List Element) :
    Occurs property (splitItems elements).pieces ↔ Occurs property elements := by
  unfold splitItems Items.pieces
  split
  · rename_i empty
    simp [List.isEmpty_iff.1 empty]
  · simp only
    rw [moveLineComments_flatten _ _ (List.cons_ne_nil _ _), List.nil_append, List.flatten_cons,
      List.append_assoc, occurs_append]
    have whole := congrArg (Occurs property) (cutCommas_flatten elements)
    rw [← whole, occurs_append, occurs_append]
    refine or_congr_right ?_
    -- The runs behind the commas and the commas, against the two of them in turn.
    generalize (cutCommas elements).2 = parts
    induction parts with
    | nil => simp
    | cons part rest ih =>
      simp only [List.map_cons, List.flatten_cons, List.flatMap_cons, List.cons_append,
        occurs_append, occurs_cons] at ih ⊢
      grind

theorem items_subset (elements : List Element) (item : List Element)
    (member : item ∈ (splitItems elements).items) : item ⊆ elements := by
  intro element inside
  have held : Occurs (· = element) (splitItems elements).pieces :=
    ⟨element, List.mem_append_left _ (List.mem_flatten.2 ⟨item, member, inside⟩), rfl⟩
  obtain ⟨other, found, rfl⟩ := (occurs_splitItems _ elements).1 held
  exact found

theorem pieces_cutAt (opens : Token → List Element → Bool) (elements : List Element) :
    (cutAt opens elements).1 ++ (cutAt opens elements).2.flatMap Branch.pieces = elements :=
  cutAt_flatten opens elements

theorem pieces_splitConditions (elements : List Element) :
    (splitConditions elements).flatMap Condition.pieces = elements := by
  unfold splitConditions
  split
  · rename_i empty
    rw [List.isEmpty_iff.1 empty, List.flatMap_nil]
  · exact cutConditions_flatten false elements

theorem pieces_conditionsAfter (keyword : Token) (elements : List Element) :
    (conditionsAfter keyword elements).flatMap Condition.pieces = .token keyword :: elements :=
  congrArg (Element.token keyword :: ·) (cutConditions_flatten false elements)

theorem pieces_joinOf (branch : Branch Element) : (joinOf branch).pieces = branch.pieces := by
  have cut := List.takeWhile_append_dropWhile
    (p := fun element : Element => !element.isKeyword ["ON", "USING"]) (l := branch.elements)
  unfold joinOf Branch.pieces
  simp only
  rcases startsWithToken_dropWhile ["ON", "USING"] branch.elements with
    nothing | ⟨link, others, found⟩
  · rw [nothing, List.append_nil] at cut
    simp [nothing, Join.pieces, cut]
  · rw [found] at cut ⊢
    simp only
    split
    · simp [Join.pieces, pieces_conditionsAfter, cut]
    · simp [Join.pieces, cut]

theorem pieces_joins (branches : List (Branch Element)) :
    (branches.map joinOf).flatMap Join.pieces = branches.flatMap Branch.pieces := by
  rw [List.flatMap_map, funext pieces_joinOf]

theorem occurs_clauseBody (keyword : Option String) (elements : List Element) :
    Occurs property (clauseBody keyword elements).pieces ↔ Occurs property elements := by
  unfold clauseBody
  cases keyword with
  | none => rfl
  | some word =>
    simp only
    split
    · rw [ClauseBody.pieces, occurs_append, occurs_splitItems, ← occurs_append,
        splitModifiers_append]
    split
    · rw [ClauseBody.pieces, pieces_joins, occurs_append, occurs_splitItems, ← occurs_append,
        pieces_cutAt]
    split
    · rw [ClauseBody.pieces, pieces_splitConditions]
    split
    · rw [ClauseBody.pieces, occurs_splitItems]
    · rfl

theorem occurs_clauseOf (keyword : Option Token) (elements : List Element) :
    Occurs property (clauseOf keyword elements).pieces ↔
      Occurs property (keyword.toList.map .token ++ elements) := by
  rw [clauseOf, Clause.pieces, occurs_append, occurs_clauseBody, occurs_append]

theorem occurs_clauses (branches : List (Branch Element)) :
    Occurs property ((branches.map fun branch =>
        clauseOf (some branch.keyword) branch.elements).flatMap Clause.pieces) ↔
      Occurs property (branches.flatMap Branch.pieces) := by
  induction branches with
  | nil => rfl
  | cons branch rest ih =>
    rw [List.map_cons, List.flatMap_cons, List.flatMap_cons, occurs_append, occurs_append, ih,
      occurs_clauseOf]
    rfl

theorem occurs_splitClauses (property : Element → Prop) (keywords : List String)
    (elements : List Element) :
    Occurs property ((splitClauses keywords elements).flatMap Clause.pieces) ↔
      Occurs property elements := by
  have whole : Occurs property elements ↔ Occurs property ((cutClauses keywords elements).1 ++
      (cutClauses keywords elements).2.flatMap Branch.pieces) :=
    Eq.to_iff (congrArg (Occurs property) (cutClauses_flatten keywords elements).symm)
  unfold splitClauses
  simp only
  rw [whole]
  split
  · rename_i empty
    rw [occurs_clauses, List.isEmpty_iff.1 empty, List.nil_append]
  · rw [List.flatMap_cons, occurs_append, occurs_append, occurs_clauseOf, occurs_clauses]
    rfl

theorem holds_clauses (property : Element → Prop) (keywords : List String)
    (elements : List Element) :
    (Build.clauses keywords elements).Yields fun clauses =>
      Occurs property (clauses.flatMap Clause.pieces) ↔ Occurs property elements := by
  have same := occurs_splitClauses property keywords elements
  unfold Build.clauses
  simp only
  split
  · exact (Build.Yields.any _).bind fun _ _ => .pure _ same
  · exact .pure _ same

theorem occurs_takeColumns (elements : List Element) (stable : Stable property elements) :
    Occurs property ((takeColumns elements).1.toList.map .group ++ (takeColumns elements).2) ↔
      Occurs property elements := by
  unfold takeColumns
  split
  · rename_i inner rest
    split
    · rfl
    · simp [stable inner (by simp)]
  · rfl

theorem occurs_rows (items : List (List Element)) (stable : Stable property items.flatten) :
    Occurs property (items.map (·.map Element.asRow)).flatten ↔ Occurs property items.flatten := by
  rw [← List.map_flatten]
  exact stable.occurs_map Element.asRow fun element _ => element.asRow_eq

theorem occurs_valuesSource (keyword : Token) (rest : List Element)
    (stable : Stable property rest) :
    Occurs property (valuesSource keyword rest).pieces ↔
      Occurs property (.token keyword :: rest) := by
  have rows := occurs_splitItems property
    (rest.takeWhile fun element => !element.isReserved)
  have plain : Stable property
      (splitItems (rest.takeWhile fun element => !element.isReserved)).items.flatten := by
    refine stable.of_subset fun element inside => ?_
    obtain ⟨item, member, within⟩ := List.mem_flatten.1 inside
    exact (List.takeWhile_sublist _).subset (items_subset _ item member within)
  rw [Items.pieces, occurs_append, ← occurs_rows _ plain] at rows
  rw [valuesSource]
  simp only [InsertSource.pieces, Items.pieces, List.cons_append, occurs_cons, occurs_append]
  refine or_congr_right ?_
  rw [rows, occurs_takeWhile property (fun element => !element.isReserved) rest]
  refine or_congr_right ?_
  rcases dropWhile_eq_nil_or_cons Token.isReserved rest with nothing | ⟨word, after, -, found⟩
  · have left : rest.dropWhile (fun element => !element.isReserved) = [] := nothing
    rw [left]
    rfl
  · have left : rest.dropWhile (fun element => !element.isReserved) = .token word :: after := found
    rw [left]
    simp [Branch.pieces]

def Reader.Holds (next : Reader) (property : Element → Prop) : Prop :=
  ∀ elements, Stable property elements → (next elements).Yields fun statement =>
    Occurs property statement.pieces ↔ Occurs property elements

variable {next : Reader}

theorem holds_insertForm (reads : next.Holds property) (keyword : Token) (rest : List Element)
    (stable : Stable property rest) :
    (insertForm next keyword rest).Yields fun form =>
      Occurs property form.pieces ↔ Occurs property (.token keyword :: rest) := by
  unfold insertForm
  simp only
  generalize (fun element : Element =>
    !(element.isGroup || element.isKeyword ["VALUES", "SELECT", "WITH", "DEFAULT"])) = endsTarget
  have stableLeft := stable.of_subset (List.dropWhile_sublist endsTarget).subset
  have columned := occurs_takeColumns (rest.dropWhile endsTarget) stableLeft
  have stableAfter := stableLeft.of_subset (takeColumns_subset (rest.dropWhile endsTarget))
  generalize takeColumns (rest.dropWhile endsTarget) = parts at columned stableAfter ⊢
  obtain ⟨columns, after⟩ := parts
  simp only [occurs_append] at columned stableAfter ⊢
  have finish (source : InsertSource)
      (holds : Occurs property source.pieces ↔ Occurs property after) :
      Occurs property (Form.insert keyword (rest.takeWhile endsTarget) columns source).pieces ↔
        Occurs property (.token keyword :: rest) := by
    simp only [Form.pieces, List.cons_append, occurs_cons, occurs_append, holds, or_assoc,
      columned, occurs_takeWhile property endsTarget rest]
  have statement : (next after >>= fun body => (pure (.insert keyword (rest.takeWhile endsTarget)
      columns (.statement body)) : Build Form)).Yields fun form =>
        Occurs property form.pieces ↔ Occurs property (.token keyword :: rest) :=
    (reads after stableAfter).bind fun body holds => .pure _ (finish (.statement body) holds)
  split
  · exact .pure _ (finish .nothing (by rfl))
  · rename_i word values
    split
    · exact .pure _ (finish _ (occurs_valuesSource word values
        (stableAfter.of_subset (List.subset_cons_self _ _))))
    · exact statement
  · exact statement

theorem holds_raw (property : Element → Prop) (elements : List Element) :
    (pure (.raw elements) : Build Form).Yields fun form =>
      Occurs property form.pieces ↔ Occurs property elements :=
  .pure _ Iff.rfl

theorem holds_updateForm (keyword : Token) (rest : List Element) :
    (updateForm keyword rest).Yields fun form =>
      Occurs property form.pieces ↔ Occurs property (.token keyword :: rest) := by
  unfold updateForm
  simp only
  split
  · exact holds_raw property _
  · refine (holds_clauses property updateClauses _).bind fun clauses holds => .pure _ ?_
    simp only [Form.pieces, List.cons_append, occurs_cons, occurs_append, holds,
      occurs_takeWhile property (fun element => !element.isKeyword ["SET"]) rest]

theorem holds_deleteForm (keyword : Token) (rest : List Element) :
    (deleteForm keyword rest).Yields fun form =>
      Occurs property form.pieces ↔ Occurs property (.token keyword :: rest) := by
  unfold deleteForm
  simp only
  generalize (if rest.head?.any (Element.isKeyword ["FROM"]) then 1 else 0) +
    (cutAt (opensClause queryClauses)
      (rest.drop (if rest.head?.any (Element.isKeyword ["FROM"]) then 1 else 0))).1.length = size
  refine (holds_clauses property queryClauses _).bind fun clauses holds => .pure _ ?_
  rw [Form.pieces, List.cons_append, occurs_cons, occurs_append, holds, ← occurs_append,
    List.take_append_drop, occurs_cons]

theorem pieces_grantForm (keyword : Token) (rest : List Element) :
    (grantForm keyword rest).pieces = .token keyword :: rest :=
  congrArg (Element.token keyword :: ·) (pieces_cutAt _ rest)

theorem holds_createForm (reads : next.Holds property) (keyword : Token) (rest : List Element)
    (stable : Stable property rest) :
    (createForm next keyword rest).Yields fun form =>
      Occurs property form.pieces ↔ Occurs property (.token keyword :: rest) := by
  unfold createForm
  simp only
  generalize (fun element : Element => !(element.isGroup || element.isKeyword ["AS"])) = endsObject
  have stableLeft := stable.of_subset (List.dropWhile_sublist endsObject).subset
  have columned := occurs_takeColumns (rest.dropWhile endsObject) stableLeft
  have stableAfter := stableLeft.of_subset (takeColumns_subset (rest.dropWhile endsObject))
  generalize takeColumns (rest.dropWhile endsObject) = parts at columned stableAfter ⊢
  obtain ⟨columns, after⟩ := parts
  simp only [occurs_append] at columned stableAfter ⊢
  have finish (left : CreateRest)
      (holds : Occurs property left.pieces ↔ Occurs property after) :
      Occurs property (Form.create keyword (rest.takeWhile endsObject) columns left).pieces ↔
        Occurs property (.token keyword :: rest) := by
    simp only [Form.pieces, List.cons_append, occurs_cons, occurs_append, holds, or_assoc,
      columned, occurs_takeWhile property endsObject rest]
  split
  · split
    · exact .pure _ (finish .nothing (by rfl))
    · rename_i word query
      split
      · refine (reads query (stableAfter.of_subset (List.subset_cons_self _ _))).bind
          fun body holds => .pure _ (finish (.query word body) ?_)
        rw [CreateRest.pieces, occurs_cons, occurs_cons, holds]
      · exact .pure _ (finish _ (by rfl))
    · exact .pure _ (finish _ (by rfl))
  · exact holds_raw property _

theorem holds_mergeAction (reads : next.Holds property) (elements : List Element)
    (stable : Stable property elements) :
    (mergeAction next elements).Yields fun form =>
      Occurs property form.pieces ↔ Occurs property elements := by
  unfold mergeAction
  split
  · rename_i keyword rest
    split
    · refine (holds_clauses property (updateClauses ++ ["DELETE"]) rest).bind
        fun clauses holds => .pure _ ?_
      rw [Form.pieces, List.singleton_append, occurs_cons, holds, occurs_cons]
    split
    · exact holds_insertForm reads keyword rest (stable.of_subset (List.subset_cons_self _ _))
    · exact holds_raw property _
  · exact holds_raw property _

theorem holds_mergeBranches (reads : next.Holds property)
    (parts : List (Token × List Element × List Element))
    (stable : Stable property (parts.flatMap fun part =>
      .token part.1 :: (part.2.1 ++ part.2.2))) :
    (mergeBranches next parts).Yields fun branches =>
      Occurs property (piecesOfMerge branches) ↔
        Occurs property (parts.flatMap fun part => .token part.1 :: (part.2.1 ++ part.2.2)) := by
  induction parts with
  | nil => exact .pure _ Iff.rfl
  | cons part rest ih =>
    obtain ⟨keyword, head, action⟩ := part
    have stableAction : Stable property action := by
      refine stable.of_subset fun element member => ?_
      simp [member]
    have stableRest : Stable property
        (rest.flatMap fun part => .token part.1 :: (part.2.1 ++ part.2.2)) := by
      refine stable.of_subset fun element member => ?_
      rw [List.flatMap_cons]
      exact List.mem_append_right _ member
    refine (holds_mergeAction reads action stableAction).bind fun form acted => ?_
    refine (ih stableRest).bind fun others holds => .pure _ ?_
    simp only [piecesOfMerge, List.flatMap_cons, List.cons_append, occurs_cons, occurs_append,
      acted, holds, or_assoc]

theorem holds_mergeForm (reads : next.Holds property) (keyword : Token) (rest : List Element)
    (stable : Stable property rest) :
    (mergeForm next keyword rest).Yields fun form =>
      Occurs property form.pieces ↔ Occurs property (.token keyword :: rest) := by
  have cut := occurs_takeWhile property
    (fun element => !element.isKeyword ["USING"]) rest
  unfold mergeForm
  simp only
  split
  · rename_i usingWord after found
    rw [found, occurs_cons,
      occurs_takeWhile property (fun element => !element.isKeyword ["ON", "WHEN"]) after] at cut
    have inside : rest.dropWhile (fun element => !element.isKeyword ["USING"]) ⊆ rest :=
      List.dropWhile_subset _
    rw [found, List.cons_subset] at inside
    have finish (conditions : List (Condition Element)) (branches : List Element)
        (subset : branches ⊆ after) (starts : StartsWithToken branches)
        (held : conditions.flatMap Condition.pieces ++ branches =
          after.dropWhile fun element => !element.isKeyword ["ON", "WHEN"]) :
        (do
          let found ← mergeBranches next (mergeParts branches)
          return Form.merge keyword (rest.takeWhile fun element => !element.isKeyword ["USING"])
            ⟨usingWord, after.takeWhile fun element => !element.isKeyword ["ON", "WHEN"],
              conditions⟩ found : Build Form).Yields fun form =>
          Occurs property form.pieces ↔ Occurs property (.token keyword :: rest) := by
      have parted := holds_mergeBranches reads (mergeParts branches)
      rw [mergeParts_flatten branches starts] at parted
      refine (parted ((stable.of_subset inside.2).of_subset subset)).bind
        fun found holds => .pure _ ?_
      simp only [Form.pieces, List.cons_append, occurs_cons, occurs_append, holds, cut, or_assoc,
        ← held]
    rcases startsWithToken_dropWhile ["ON", "WHEN"] after with nothing | ⟨word, others, left⟩
    · rw [nothing] at finish ⊢
      exact finish [] [] (List.nil_subset _) (.inl rfl) rfl
    · have within : after.dropWhile (fun element => !element.isKeyword ["ON", "WHEN"]) ⊆ after :=
        List.dropWhile_subset _
      rw [left] at finish within ⊢
      simp only
      split
      · refine finish _ _ (fun element member => within (List.mem_cons_of_mem _
          ((List.dropWhile_sublist _).subset member))) (startsWithToken_dropWhile _ _) ?_
        rw [pieces_conditionsAfter, List.cons_append, List.takeWhile_append_dropWhile]
      · exact finish [] (.token word :: others) within (.inr ⟨word, others, rfl⟩) rfl
  · exact holds_raw property _

theorem holds_definition (elements : List Element) (stable : Stable property elements)
    (found : Definition) (after : List Element)
    (step : definition elements = .ok (found, after)) :
    after ⊆ elements ∧
      (Occurs property (found.pieces ++ after) ↔ Occurs property elements) := by
  unfold definition at step
  simp only at step
  split at step
  · rename_i keyword tail afterAs
    split at step
    · rename_i query rest afterModifiers
      simp only [Except.ok.injEq, Prod.mk.injEq] at step
      obtain ⟨rfl, rfl⟩ := step
      have first : elements.dropWhile (fun element => !element.isKeyword ["AS"]) ⊆ elements :=
        List.dropWhile_subset _
      have second : tail.dropWhile (fun element =>
          element.isText "NOT" || element.isText "MATERIALIZED") ⊆ tail :=
        List.dropWhile_subset _
      rw [afterAs, List.cons_subset] at first
      rw [afterModifiers, List.cons_subset] at second
      refine ⟨fun element member => first.2 (second.2 member), ?_⟩
      have head := (stable.of_subset (List.takeWhile_sublist
        (fun element => !element.isKeyword ["AS"])).subset).occurs_asTuple
      rw [occurs_takeWhile property (fun element => !element.isKeyword ["AS"]) elements, afterAs,
        occurs_cons, occurs_takeWhile property
          (fun element => element.isText "NOT" || element.isText "MATERIALIZED") tail,
        afterModifiers]
      simp only [Definition.pieces, List.append_assoc, List.cons_append, List.nil_append,
        occurs_append, occurs_cons, head]
    · simp at step
  · simp at step

theorem holds_definitions (elements : List Element) (stable : Stable property elements)
    (found : List Definition) (commas : List Token) (after : List Element)
    (step : definitions elements = .ok (found, commas, after)) :
    after ⊆ elements ∧
      (Occurs property (found.flatMap Definition.pieces ++ commas.map .token ++ after) ↔
        Occurs property elements) := by
  fun_induction definitions elements generalizing found commas after with
  | case1 elements empty =>
    simp only [Except.ok.injEq, Prod.mk.injEq] at step
    obtain ⟨rfl, rfl, rfl⟩ := step
    rw [List.isEmpty_iff.1 empty]
    exact ⟨List.Subset.refl _, Iff.rfl⟩
  | case2 elements filled misfit failed => simp at step
  | case3 elements filled first comma rest one isComma misfit failed ih => simp at step
  | case4 elements filled first comma rest one isComma others moreCommas left more ih =>
    simp only [Except.ok.injEq, Prod.mk.injEq] at step
    obtain ⟨rfl, rfl, rfl⟩ := step
    obtain ⟨subset, head⟩ := holds_definition elements stable first _ one
    obtain ⟨subsetRest, onward⟩ := ih
      (stable.of_subset fun element member => subset (List.mem_cons_of_mem _ member)) _ _ _ more
    refine ⟨fun element member => subset (List.mem_cons_of_mem _ (subsetRest member)), ?_⟩
    simp only [List.flatMap_cons, List.map_cons, List.append_assoc, List.cons_append,
      occurs_append, occurs_cons] at head onward ⊢
    rw [← head, ← onward]
    grind
  | case5 elements filled first comma rest one isComma =>
    simp only [Except.ok.injEq, Prod.mk.injEq] at step
    obtain ⟨rfl, rfl, rfl⟩ := step
    simpa using holds_definition elements stable first _ one
  | case6 elements filled first rest other one =>
    simp only [Except.ok.injEq, Prod.mk.injEq] at step
    obtain ⟨rfl, rfl, rfl⟩ := step
    simpa using holds_definition elements stable first _ one

theorem holds_withForm (reads : next.Holds property) (keyword : Token) (rest : List Element)
    (stable : Stable property rest) :
    (withForm next keyword rest).Yields fun form =>
      Occurs property form.pieces ↔ Occurs property (.token keyword :: rest) := by
  have finish (modifiers others : List Element) (whole : rest = modifiers ++ others) :
      (do
        let parts ← definitions others
        let body ← next parts.2.2
        return Form.withQueries keyword modifiers parts.1 parts.2.1 body : Build Form).Yields
          fun form => Occurs property form.pieces ↔ Occurs property (.token keyword :: rest) := by
    have stableOthers : Stable property others := by
      refine stable.of_subset ?_
      rw [whole]
      exact List.subset_append_right _ _
    refine (Build.Yields.lift (definitions others) fun parts step =>
      holds_definitions others stableOthers parts.1 parts.2.1 parts.2.2 step).bind ?_
    rintro ⟨found, commas, after⟩ ⟨subset, held⟩
    refine (reads after (stableOthers.of_subset subset)).bind fun body holds => .pure _ ?_
    rw [whole]
    simp only [Form.pieces, List.cons_append, List.append_assoc, occurs_cons, occurs_append,
      holds] at held ⊢
    rw [held]
  unfold withForm
  simp only
  split
  · exact finish _ _ (List.take_append_drop 1 rest).symm
  · exact finish [] rest rfl

theorem holds_formOf (reads : next.Holds property) (elements : List Element)
    (stable : Stable property elements) :
    (formOf next elements).Yields fun form =>
      Occurs property form.pieces ↔ Occurs property elements := by
  have raw := holds_raw property elements
  have query : (do return .query (← Build.clauses queryClauses elements) : Build Form).Yields
      fun form => Occurs property form.pieces ↔ Occurs property elements :=
    (holds_clauses property queryClauses elements).bind fun clauses holds => .pure _ holds
  unfold formOf
  split
  · rename_i first rest
    have stableRest := stable.of_subset (List.subset_cons_self _ rest)
    split
    · exact holds_withForm reads first rest stableRest
    split
    · exact query
    split
    · exact holds_insertForm reads first rest stableRest
    split
    · exact holds_updateForm first rest
    split
    · exact holds_deleteForm first rest
    split
    · exact holds_mergeForm reads first rest stableRest
    split
    · exact holds_createForm reads first rest stableRest
    split
    · exact .pure _ (by rw [pieces_grantForm])
    · exact raw
  · split
    · exact query
    · exact raw
  · exact raw

theorem map_tokensOf (elements : List Element)
    (comments : ∀ element ∈ elements, element.isComment = true) :
    (tokensOf elements).map .token = elements := by
  induction elements with
  | nil => rfl
  | cons element rest ih =>
    have onward := ih fun other member => comments other (List.mem_cons_of_mem _ member)
    have head := comments element (by simp)
    cases element with
    | token token => exact congrArg (Element.token token :: ·) onward
    | group inner => simp [Element.isComment, Element.isTokenWith, Element.token?] at head
    | case inner => simp [Element.isComment, Element.isTokenWith, Element.token?] at head

theorem holds_statementWith (reads : next.Holds property) :
    Reader.Holds (statementWith next) property := by
  intro elements stable
  unfold statementWith
  simp only
  have parts := splitTrailing_append Element.isComment (elements.dropWhile Element.isComment)
  have trailing := belongs_of_mem_trailing Element.isComment
    (elements.dropWhile Element.isComment)
  generalize splitTrailing Element.isComment (elements.dropWhile Element.isComment) = split
    at parts trailing ⊢
  obtain ⟨body, after⟩ := split
  simp only at parts trailing ⊢
  have stableBody : Stable property body := by
    refine stable.of_subset fun element member =>
      (List.dropWhile_sublist Element.isComment).subset ?_
    rw [← parts]
    exact List.mem_append_left _ member
  refine (holds_formOf reads body stableBody).bind fun form holds => .pure _ ?_
  rw [Statement.pieces, map_tokensOf _ trailing,
    map_tokensOf _ (List.all_eq_true.1 List.all_takeWhile),
    occurs_takeWhile property Element.isComment elements, ← parts]
  simp only [occurs_append, holds, or_assoc]

theorem holds_statementOf (property : Element → Prop) : Reader.Holds statementOf property := by
  have fueled (fuel : Nat) : Reader.Holds (statementFuel fuel) property := by
    induction fuel with
    | zero =>
      intro elements _
      refine .pure _ ?_
      simp [Statement.ofForm, Statement.pieces, Form.pieces]
    | succ fuel ih => exact holds_statementWith ih
  intro elements
  exact fueled (elements.length + 1) elements

end

end SqlLayout.Tree
