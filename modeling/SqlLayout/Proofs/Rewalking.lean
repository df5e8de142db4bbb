import SqlLayout.Proofs.Recasting
import SqlLayout.Proofs.Walking

/-! Statements with other letters. Every form is read from a run with twins in the place of its
tokens as it is read from the run itself, so the tree of a text does not depend on the case of
its letters, nor on the blanks between its words. -/
namespace SqlLayout.Tree

section Cases

variable {change : Token → Token} (twins : ∀ token, Twin token (change token))

include twins

theorem groupCases_recast (depth : Nat) (elements : List Element) :
    groupCases depth (recastRun change elements) = recastRun change (groupCases depth elements) := by
  fun_induction groupCases depth elements with
  | case1 => simp [recastRun]
  | case2 token rest opens inner closing after found operand branches cut inside behind =>
    have opens' : (change token).isKeyword ["CASE"] = true := by
      rw [(twins token).isKeyword]
      exact opens
    have found' : untilEnd 0 (recastRun change rest) =
        some (recastRun change inner, change closing, recastRun change after) := by
      rw [untilEnd_recast twins, found]
      rfl
    have single : token.isCompound = false := by
      simp only [Token.isKeyword, Bool.and_eq_true, List.contains_iff_mem,
        List.mem_singleton] at opens
      rw [Token.isCompound, opens.2, opens.1]
      decide
    rw [recastRun, Element.recast, groupCases_closed depth _ _ _ _ _ opens' found', inside, behind,
      cutAtWords_recast twins, cut]
    simp only [recastRun, Element.recast, single, Bool.false_eq_true, if_false]
  | case3 token rest opens missing ih =>
    rw [recastRun, Element.recast, groupCases_open, ih]
    · rfl
    · intro _
      rw [untilEnd_recast twins, missing]
      rfl
  | case4 token rest other ih =>
    rw [recastRun, Element.recast, groupCases_open, ih]
    · rfl
    · intro opens
      rw [(twins token).isKeyword] at opens
      exact absurd opens other
  | case5 element rest other ih =>
    cases element with
    | token token => exact absurd rfl (other token)
    | group inner =>
      rw [recastRun, Element.recast, groupCases, ih]
      · rfl
      · simp
    | case inner =>
      rw [recastRun, Element.recast, groupCases, ih]
      · simp only [recastRun, Element.recast]
      · simp

end Cases

section Clauses

variable {change : Token → Token} (twins : ∀ token, Twin token (change token))

@[simp] theorem isGroup_recast (element : Element) :
    (element.recast change).isGroup = element.isGroup := by
  cases element <;> rfl

include twins

theorem isJoinKeyword_recast (token : Token) :
    isJoinKeyword (change token) = isJoinKeyword token := by
  simp only [isJoinKeyword, (twins token).called, (twins token).isReserved,
    (twins token).spoken "STRAIGHT_JOIN" (by decide)]

theorem opensClause_recast (keywords : List String) (token : Token) (rest : List Element) :
    opensClause keywords (change token) (recastRun change rest) =
      opensClause keywords token rest := by
  have next : (((recastRun change rest).head?.bind Element.token?).any fun next =>
      Text.upper next.text ≠ "TIES") =
        (rest.head?.bind Element.token?).any fun next => Text.upper next.text ≠ "TIES" := by
    cases rest with
    | nil => rfl
    | cons element others =>
      cases element with
      | token next =>
        simp [recastRun, Element.recast, Element.token?, (twins next).spoken "TIES" (by decide)]
      | group group => rfl
      | case case => rfl
  rw [opensClause, opensClause, next, (twins token).isReserved]
  by_cases reserved : token.isReserved = true
  · rw [(twins token).contents reserved]
  · rw [Bool.not_eq_true] at reserved
    rw [reserved, Bool.false_and, Bool.false_and]

theorem splitModifiers_recast (afterTop : Bool) : ∀ elements : List Element,
    splitModifiers afterTop (recastRun change elements) =
      (recastRun change (splitModifiers afterTop elements).1,
        recastRun change (splitModifiers afterTop elements).2)
  | [] => rfl
  | [last] => by
    simp only [recastRun, splitModifiers, isText_recast twins "PERCENT" (by decide),
      isKeyword_recast twins]
    split <;> rfl
  | [first, second] => by
    have one (afterTop : Bool) := splitModifiers_recast afterTop [second]
    have number : (second.recast change).isTokenWith
          (fun token => token.kind = .numberLiteral || token.kind = .placeholder) =
        second.isTokenWith fun token => token.kind = .numberLiteral || token.kind = .placeholder :=
      isTokenWith_recast _ (fun token => by rw [(twins token).kind]) second
    simp only [recastRun] at one
    simp only [recastRun, splitModifiers.eq_4, splitModifiers.eq_1, one, number,
      isText_recast twins "PERCENT" (by decide), isText_recast twins "WITH" (by decide),
      isText_recast twins "TIES" (by decide), isText_recast twins "TOP" (by decide),
      isKeyword_recast twins, isGroup_recast]
    repeat' split
    all_goals rfl
  | first :: second :: third :: others => by
    have two (afterTop : Bool) := splitModifiers_recast afterTop (second :: third :: others)
    have one := splitModifiers_recast true (third :: others)
    have none := splitModifiers_recast false others
    have number : (second.recast change).isTokenWith
          (fun token => token.kind = .numberLiteral || token.kind = .placeholder) =
        second.isTokenWith fun token => token.kind = .numberLiteral || token.kind = .placeholder :=
      isTokenWith_recast _ (fun token => by rw [(twins token).kind]) second
    simp only [recastRun] at two one
    simp only [recastRun, splitModifiers.eq_3, two, one, none, number,
      isText_recast twins "PERCENT" (by decide), isText_recast twins "WITH" (by decide),
      isText_recast twins "TIES" (by decide), isText_recast twins "TOP" (by decide),
      isKeyword_recast twins, isGroup_recast]
    repeat' split
    all_goals rfl

theorem takeWhile_not_keyword (words : List String) (elements : List Element) :
    (recastRun change elements).takeWhile (!Element.isKeyword words ·) =
      recastRun change (elements.takeWhile (!Element.isKeyword words ·)) :=
  takeWhile_recastRun (fun element => !Element.isKeyword words element)
    (fun element => by rw [isKeyword_recast twins]) elements

theorem dropWhile_not_keyword (words : List String) (elements : List Element) :
    (recastRun change elements).dropWhile (!Element.isKeyword words ·) =
      recastRun change (elements.dropWhile (!Element.isKeyword words ·)) :=
  dropWhile_recastRun (fun element => !Element.isKeyword words element)
    (fun element => by rw [isKeyword_recast twins]) elements

omit twins in
theorem isReserved_of_dropWhile (words : List String) (elements rest : List Element)
    (link : Token)
    (found : elements.dropWhile (!Element.isKeyword words ·) = .token link :: rest) :
    link.isReserved = true := by
  have stops := List.head?_dropWhile_not (!Element.isKeyword words ·) elements
  rw [found] at stops
  simp only [List.head?_cons, Bool.not_eq_false', Element.isKeyword, Element.isTokenWith,
    Element.token?, Option.any_some, Token.isKeyword, Bool.and_eq_true] at stops
  exact stops.1

theorem joinOf_recast (branch : Branch Element) :
    joinOf (branch.recast change) = (joinOf branch).recast change := by
  obtain ⟨keyword, elements⟩ := branch
  simp only [joinOf, Branch.recast, takeWhile_not_keyword twins, dropWhile_not_keyword twins]
  cases found : elements.dropWhile (!Element.isKeyword ["ON", "USING"] ·) with
  | nil => rfl
  | cons element rest =>
    cases element with
    | token link =>
      have reserved := isReserved_of_dropWhile _ elements rest link found
      simp only [recastRun, Element.recast, (twins link).contents reserved]
      split
      · rw [conditionsAfter_recast twins]
        rfl
      · rfl
    | group inner => rfl
    | case inner =>
      simp only [recastRun, Element.recast]
      rfl

theorem clauseBody_recast (keyword : Option Token) (elements : List Element) :
    clauseBody ((keyword.map change).map Token.contents) (recastRun change elements) =
      recastClause change (clauseBody (keyword.map Token.contents) elements) := by
  cases keyword with
  | none => rfl
  | some keyword =>
    have word (word : String) (member : word ∈ clauseWords) :=
      (twins keyword).clause word member
    have joins (branches : List (Branch Element)) :
        (recastBranches change branches).map joinOf = recastJoins change (branches.map joinOf) := by
      rw [recastBranches_eq_map, recastJoins_eq_map, List.map_map, List.map_map]
      exact List.map_congr_left fun branch _ => joinOf_recast twins branch
    simp only [Option.map_some, clauseBody, word "SELECT" (by decide), word "FROM" (by decide),
      word "SET" (by decide), (twins keyword).contains predicateClauses (by decide),
      (twins keyword).contains orderingClauses (by decide), splitModifiers_recast twins,
      splitItems_recast twins, cutAt_recast (fun token _ => isJoinKeyword token)
        (fun token _ => isJoinKeyword_recast twins token), splitConditions_recast twins, joins]
    split
    · rfl
    split
    · rfl
    split
    · rfl
    split
    · rfl
    · rfl

theorem cutClauses_recast (keywords : List String) (elements : List Element) :
    cutClauses keywords (recastRun change elements) =
      (recastRun change (cutClauses keywords elements).1,
        recastBranches change (cutClauses keywords elements).2) := by
  cases elements with
  | nil => rfl
  | cons first rest =>
    have cut := cutAt_recast (opensClause keywords) (opensClause_recast twins keywords) rest
    cases first with
    | token token =>
      simp only [recastRun, Element.recast, cutClauses, cut, (twins token).isKeyword]
      split <;> rfl
    | group inner => simp only [recastRun, Element.recast, cutClauses, cut]
    | case inner => simp only [recastRun, Element.recast, cutClauses, cut]

theorem splitClauses_recast (keywords : List String) (elements : List Element) :
    splitClauses keywords (recastRun change elements) =
      recastClauses change (splitClauses keywords elements) := by
  have named (branches : List (Branch Element)) :
      (recastBranches change branches).map
          (fun branch => clauseOf (some branch.keyword) branch.elements) =
        recastClauses change
          (branches.map fun branch => clauseOf (some branch.keyword) branch.elements) := by
    rw [recastBranches_eq_map, recastClauses_eq_map, List.map_map, List.map_map]
    refine List.map_congr_left fun branch _ => ?_
    exact congrArg (Clause.mk _) (clauseBody_recast twins (some branch.keyword) branch.elements)
  have head (elements : List Element) :
      clauseOf none (recastRun change elements) = (clauseOf none elements).recast change := rfl
  simp only [splitClauses, cutClauses_recast twins, named, isEmpty_recastRun, head]
  split
  · rfl
  · rw [recastClauses_eq_map, recastClauses_eq_map, List.map_cons]

end Clauses

/-- The second of two builds gives the image of what the first gives, and fails with it. How
far either has come before makes no difference. -/
def Build.Mirrors {α β : Type} (image : α → β) (build : Build α) (mirror : Build β) : Prop :=
  ∀ before start, (mirror.run start).1.toOption = (build.run before).1.toOption.map image

namespace Build.Mirrors

variable {α β γ δ : Type} {image : α → β} {other : γ → δ}

theorem pure (value : α) : Mirrors image (Pure.pure value) (Pure.pure (image value)) :=
  fun _ _ => rfl

theorem throw (misfit mirrored : Misfit) :
    Mirrors image (MonadExcept.throw misfit) (MonadExcept.throw mirrored) :=
  fun _ _ => rfl

theorem modified (change mirrored : Progress → Progress) :
    Mirrors id (modify change : Build Unit) (modify mirrored) :=
  fun _ _ => rfl

theorem lift (outcome : Except Misfit α) :
    Mirrors image (liftM outcome) (liftM (outcome.map image)) := by
  intro before start
  cases outcome <;> rfl

theorem bind {build : Build α} {mirror : Build β} {next : α → Build γ} {after : β → Build δ}
    (first : Mirrors image build mirror)
    (onward : ∀ value, Mirrors other (next value) (after (image value))) :
    Mirrors other (build >>= next) (mirror >>= after) := by
  intro before start
  have unfolded : (build >>= next).run before =
      ExceptT.bindCont next (build.run before).1 (build.run before).2 := rfl
  have mirrored : (mirror >>= after).run start =
      ExceptT.bindCont after (mirror.run start).1 (mirror.run start).2 := rfl
  have same := first before start
  rw [unfolded, mirrored]
  cases given : (build.run before).1 with
  | error misfit =>
    cases found : (mirror.run start).1 with
    | error misfit => rfl
    | ok value =>
      rw [given, found] at same
      cases same
  | ok value =>
    cases found : (mirror.run start).1 with
    | error misfit =>
      rw [given, found] at same
      cases same
    | ok value' =>
      rw [given, found] at same
      obtain rfl : value' = image value := Option.some.inj same
      exact onward value _ _

end Build.Mirrors

def Definition.recast (change : Token → Token) (definition : Definition) : Definition :=
  ⟨recastRun change definition.head, change definition.keyword,
    recastRun change definition.modifiers, definition.query.recast change⟩

theorem recastDefinitions_eq_map (change : Token → Token) (definitions : List Definition) :
    recastDefinitions change definitions = definitions.map (Definition.recast change) := by
  induction definitions with
  | nil => rfl
  | cons definition rest ih =>
    cases definition
    rw [recastDefinitions, ih, List.map_cons, Definition.recast]

def MergeBranch.recast (change : Token → Token) (branch : MergeBranch) : MergeBranch :=
  ⟨change branch.keyword, recastRun change branch.head, branch.action.recast change⟩

theorem recastMerge_eq_map (change : Token → Token) (branches : List MergeBranch) :
    recastMerge change branches = branches.map (MergeBranch.recast change) := by
  induction branches with
  | nil => rfl
  | cons branch rest ih =>
    cases branch
    rw [recastMerge, ih, List.map_cons, MergeBranch.recast]

def Reader.Mirrors (change : Token → Token) (next : Reader) : Prop :=
  ∀ elements, Build.Mirrors (Statement.recast change) (next elements)
    (next (recastRun change elements))

section Forms

variable {change : Token → Token} (twins : ∀ token, Twin token (change token))

@[simp] theorem isSubquery_recast (group : Group) :
    (group.recast change).isSubquery = group.isSubquery := by
  obtain ⟨opening, closing, depth, role, body, elements, items⟩ := group
  rfl

include twins

theorem mirrors_clauses (keywords : List String) (elements : List Element) :
    Build.Mirrors (recastClauses change) (Build.clauses keywords elements)
      (Build.clauses keywords (recastRun change elements)) := by
  have split := splitClauses_recast twins keywords elements
  intro before start
  unfold Build.clauses
  simp only [split]
  cases (splitClauses keywords elements).getLast? <;>
    cases (recastClauses change (splitClauses keywords elements)).getLast? <;> rfl

theorem asTuple_recast_element (element : Element) :
    (element.recast change).asTuple = element.asTuple.recast change := by
  cases element with
  | token token => rfl
  | group inner =>
    simp only [Element.recast, Element.asTuple, asTuple_recast twins]
  | case inner =>
    obtain ⟨keyword, closing, depth, operand, branches⟩ := inner
    simp only [Element.recast, Element.asTuple]

theorem asRow_recast (element : Element) :
    (element.recast change).asRow = element.asRow.recast change := by
  cases element with
  | token token => rfl
  | group inner =>
    simp only [Element.recast, Element.asRow, asTuple_recast twins, isSubquery_recast]
    split <;> rfl
  | case inner =>
    obtain ⟨keyword, closing, depth, operand, branches⟩ := inner
    simp only [Element.recast, Element.asRow]

omit twins in
theorem map_recastRun (tune : Element → Element)
    (same : ∀ element, tune (element.recast change) = (tune element).recast change)
    (elements : List Element) :
    (recastRun change elements).map tune = recastRun change (elements.map tune) := by
  rw [recastRun_eq_map, recastRun_eq_map, List.map_map, List.map_map]
  exact List.map_congr_left fun element _ => same element

theorem definition_recast (elements : List Element) :
    definition (recastRun change elements) =
      (definition elements).map fun (found, rest) => (found.recast change, recastRun change rest) := by
  have modifier (element : Element) :
      ((element.recast change).isText "NOT" || (element.recast change).isText "MATERIALIZED") =
        (element.isText "NOT" || element.isText "MATERIALIZED") := by
    rw [isText_recast twins "NOT" (by decide), isText_recast twins "MATERIALIZED" (by decide)]
  have takes (elements : List Element) := takeWhile_recastRun
    (fun element : Element => element.isText "NOT" || element.isText "MATERIALIZED") modifier
    elements
  have drops (elements : List Element) := dropWhile_recastRun
    (fun element : Element => element.isText "NOT" || element.isText "MATERIALIZED") modifier
    elements
  simp only [definition, takeWhile_not_keyword twins, dropWhile_not_keyword twins]
  cases elements.dropWhile (!Element.isKeyword ["AS"] ·) with
  | nil => rfl
  | cons element rest =>
    cases element with
    | token keyword =>
      simp only [recastRun, Element.recast, takes, drops]
      cases rest.dropWhile fun element => element.isText "NOT" || element.isText "MATERIALIZED" with
      | nil => rfl
      | cons element after =>
        cases element with
        | token token => rfl
        | group query =>
          simp only [recastRun, Element.recast, Except.map, Definition.recast,
            map_recastRun Element.asTuple (asTuple_recast_element twins)]
        | case inner =>
          obtain ⟨word, closing, depth, operand, branches⟩ := inner
          simp only [recastRun, Element.recast]
          rfl
    | group inner => rfl
    | case inner =>
      obtain ⟨word, closing, depth, operand, branches⟩ := inner
      simp only [recastRun, Element.recast]
      rfl

theorem definitions_recast (elements : List Element) :
    definitions (recastRun change elements) =
      (definitions elements).map fun (found, commas, rest) =>
        (recastDefinitions change found, commas.map change, recastRun change rest) := by
  fun_induction definitions elements with
  | case1 elements empty =>
    rw [definitions, isEmpty_recastRun, if_pos empty]
    rfl
  | case2 elements filled misfit step =>
    have mirrored := definition_recast twins elements
    rw [step] at mirrored
    rw [definitions, isEmpty_recastRun, if_neg filled]
    split <;> simp_all [Except.map]
  | case3 elements filled first comma rest step isComma misfit stop ih =>
    have mirrored := definition_recast twins elements
    have kind := (twins comma).kind
    rw [step] at mirrored
    rw [definitions, isEmpty_recastRun, if_neg filled]
    split <;> simp_all [Except.map, recastRun, Element.recast]
  | case4 elements filled first comma rest step isComma others commas after found ih =>
    have mirrored := definition_recast twins elements
    have kind := (twins comma).kind
    rw [step] at mirrored
    rw [definitions, isEmpty_recastRun, if_neg filled]
    split <;> simp_all [Except.map, recastRun, Element.recast, recastDefinitions_eq_map]
  | case5 elements filled first comma rest step other =>
    have mirrored := definition_recast twins elements
    have kind := (twins comma).kind
    rw [step] at mirrored
    rw [definitions, isEmpty_recastRun, if_neg filled]
    split <;> simp_all [Except.map, recastRun, Element.recast, recastDefinitions_eq_map]
  | case6 elements filled first rest other step =>
    have mirrored := definition_recast twins elements
    rw [step] at mirrored
    rw [definitions, isEmpty_recastRun, if_neg filled]
    split
    · simp_all [Except.map]
    · rename_i comma behind found
      rw [found] at mirrored
      cases rest with
      | nil => simp_all [Except.map, recastRun]
      | cons element behind =>
        cases element with
        | token token => exact absurd rfl (other token behind)
        | group inner => simp_all [Except.map, recastRun, Element.recast]
        | case inner => simp_all [Except.map, recastRun, Element.recast]
    · simp_all [Except.map, recastDefinitions_eq_map]

theorem mirrors_withForm (next : Reader) (reads : next.Mirrors change) (keyword : Token)
    (rest : List Element) :
    Build.Mirrors (Form.recast change) (withForm next keyword rest)
      (withForm next (change keyword) (recastRun change rest)) := by
  have isRecursive : (recastRun change rest).head?.any (Element.isKeyword ["RECURSIVE"]) =
      rest.head?.any (Element.isKeyword ["RECURSIVE"]) := by
    rw [head?_recastRun, Option.any_map]
    exact congrArg (Option.any · rest.head?) (funext (isKeyword_recast twins _))
  have finish (modifiers others : List Element) : Build.Mirrors (Form.recast change)
      (do
        let parts ← definitions others
        let body ← next parts.2.2
        return Form.withQueries keyword modifiers parts.1 parts.2.1 body)
      (do
        let parts ← definitions (recastRun change others)
        let body ← next parts.2.2
        return Form.withQueries (change keyword) (recastRun change modifiers) parts.1 parts.2.1
          body) := by
    rw [definitions_recast twins]
    exact (Build.Mirrors.lift (definitions others)).bind fun parts =>
      (reads parts.2.2).bind fun body => .pure (Form.withQueries keyword modifiers parts.1 parts.2.1
        body)
  unfold withForm
  simp only [isRecursive, take_recastRun, drop_recastRun]
  split
  · exact finish (rest.take 1) (rest.drop 1)
  · exact finish [] rest

theorem takeColumns_recast (elements : List Element) :
    takeColumns (recastRun change elements) =
      ((takeColumns elements).1.map (Group.recast change),
        recastRun change (takeColumns elements).2) := by
  cases elements with
  | nil => rfl
  | cons element rest =>
    cases element with
    | token token => rfl
    | group inner =>
      simp only [recastRun, Element.recast, takeColumns, isSubquery_recast, asTuple_recast twins]
      split <;> rfl
    | case inner =>
      obtain ⟨word, closing, depth, operand, branches⟩ := inner
      simp only [recastRun, Element.recast, takeColumns, Option.map_none]

omit twins in
theorem recastColumns_eq_map (columns : Option Group) :
    recastColumns change columns = columns.map (Group.recast change) := by
  cases columns <;> rfl

theorem valuesSource_recast (keyword : Token) (rest : List Element) :
    valuesSource (change keyword) (recastRun change rest) =
      (valuesSource keyword rest).recast change := by
  have reserved (element : Element) :
      (!(element.recast change).isReserved) = !element.isReserved := by
    rw [isReserved_recast twins]
  have rows (items : List (List Element)) :
      (recastRuns change items).map (·.map Element.asRow) =
        recastRuns change (items.map (·.map Element.asRow)) := by
    rw [recastRuns_eq_map, recastRuns_eq_map, List.map_map, List.map_map]
    exact List.map_congr_left fun item _ => map_recastRun Element.asRow (asRow_recast twins) item
  have drops := dropWhile_recastRun (fun element : Element => !element.isReserved) reserved rest
  have takes := takeWhile_recastRun (fun element : Element => !element.isReserved) reserved rest
  simp only [valuesSource, takes, drops, splitItems_recast twins, Items.recast,
    InsertSource.recast, rows]
  cases rest.dropWhile (!Element.isReserved ·) with
  | nil => rfl
  | cons element after =>
    cases element with
    | token word => rfl
    | group inner => rfl
    | case inner =>
      obtain ⟨word, closing, depth, operand, branches⟩ := inner
      simp only [recastRun, Element.recast]
      rfl

theorem mirrors_insertForm (next : Reader) (reads : next.Mirrors change) (keyword : Token)
    (rest : List Element) :
    Build.Mirrors (Form.recast change) (insertForm next keyword rest)
      (insertForm next (change keyword) (recastRun change rest)) := by
  have ends (element : Element) :
      (!((element.recast change).isGroup ||
        (element.recast change).isKeyword ["VALUES", "SELECT", "WITH", "DEFAULT"])) =
      !(element.isGroup || element.isKeyword ["VALUES", "SELECT", "WITH", "DEFAULT"]) := by
    rw [isGroup_recast, isKeyword_recast twins]
  have takes := takeWhile_recastRun (fun element : Element =>
    !(element.isGroup || element.isKeyword ["VALUES", "SELECT", "WITH", "DEFAULT"])) ends rest
  have drops := dropWhile_recastRun (fun element : Element =>
    !(element.isGroup || element.isKeyword ["VALUES", "SELECT", "WITH", "DEFAULT"])) ends rest
  unfold insertForm
  simp only [takes, drops, takeColumns_recast twins, ← recastColumns_eq_map]
  generalize rest.takeWhile (fun element : Element =>
    !(element.isGroup || element.isKeyword ["VALUES", "SELECT", "WITH", "DEFAULT"])) = target
  generalize takeColumns (rest.dropWhile fun element : Element =>
    !(element.isGroup || element.isKeyword ["VALUES", "SELECT", "WITH", "DEFAULT"])) = parts
  obtain ⟨columns, after⟩ := parts
  have query : Build.Mirrors (Form.recast change)
      (do
        let body ← next after
        return Form.insert keyword target columns (.statement body))
      (do
        let body ← next (recastRun change after)
        return Form.insert (change keyword) (recastRun change target)
          (recastColumns change columns) (.statement body)) :=
    (reads after).bind fun body =>
      .pure (Form.insert keyword target columns (.statement body))
  cases after with
  | nil => exact .pure (Form.insert keyword target columns .nothing)
  | cons element values =>
    cases element with
    | token word =>
      simp only [recastRun, Element.recast] at query ⊢
      simp only [(twins word).isKeyword]
      split
      · rw [valuesSource_recast twins]
        exact .pure (Form.insert keyword target columns (valuesSource word values))
      · exact query
    | group inner => exact query
    | case inner =>
      obtain ⟨word, closing, depth, operand, branches⟩ := inner
      simp only [recastRun, Element.recast] at query ⊢
      exact query

theorem mirrors_updateForm (keyword : Token) (rest : List Element) :
    Build.Mirrors (Form.recast change) (updateForm keyword rest)
      (updateForm (change keyword) (recastRun change rest)) := by
  unfold updateForm
  simp only [takeWhile_not_keyword twins, dropWhile_not_keyword twins]
  cases rest.dropWhile (!Element.isKeyword ["SET"] ·) with
  | nil => exact .pure (Form.raw (.token keyword :: rest))
  | cons element after =>
    refine (mirrors_clauses twins updateClauses (element :: after)).bind fun clauses => ?_
    exact .pure (Form.update keyword _ clauses)

theorem mirrors_deleteForm (keyword : Token) (rest : List Element) :
    Build.Mirrors (Form.recast change) (deleteForm keyword rest)
      (deleteForm (change keyword) (recastRun change rest)) := by
  have skips : (recastRun change rest).head?.any (Element.isKeyword ["FROM"]) =
      rest.head?.any (Element.isKeyword ["FROM"]) := by
    rw [head?_recastRun, Option.any_map]
    exact congrArg (Option.any · rest.head?) (funext (isKeyword_recast twins _))
  unfold deleteForm
  simp only [skips, drop_recastRun, take_recastRun, length_recastRun,
    cutAt_recast (opensClause queryClauses) (opensClause_recast twins queryClauses)]
  exact (mirrors_clauses twins queryClauses _).bind fun clauses =>
    .pure (Form.delete keyword _ clauses)

theorem mergeParts_recast (elements : List Element) :
    mergeParts (recastRun change elements) =
      (mergeParts elements).map fun (keyword, head, action) =>
        (change keyword, recastRun change head, recastRun change action) := by
  fun_induction mergeParts elements with
  | case1 keyword rest isThen isWhen afterHead head actions ih =>
    rw [recastRun, Element.recast, mergeParts]
    simp only [takeWhile_not_keyword twins, dropWhile_not_keyword twins, take_recastRun,
      drop_recastRun, ← recastRun_append]
    rw [List.map_cons]
    exact congrArg _ ih
  | case2 elements other =>
    cases elements with
    | nil => simp [recastRun, mergeParts]
    | cons element rest =>
      cases element with
      | token token => exact absurd rfl (other token rest)
      | group inner => simp [recastRun, Element.recast, mergeParts]
      | case inner => simp [recastRun, Element.recast, mergeParts]

theorem mirrors_mergeAction (next : Reader) (reads : next.Mirrors change)
    (elements : List Element) :
    Build.Mirrors (Form.recast change) (mergeAction next elements)
      (mergeAction next (recastRun change elements)) := by
  have raw : Build.Mirrors (Form.recast change) (pure (Form.raw elements) : Build Form)
      (pure (Form.raw (recastRun change elements))) := .pure (Form.raw elements)
  unfold mergeAction
  cases elements with
  | nil => exact raw
  | cons element rest =>
    cases element with
    | token keyword =>
      simp only [recastRun, Element.recast] at raw ⊢
      simp only [(twins keyword).isKeyword]
      split
      · exact (mirrors_clauses twins _ rest).bind fun clauses =>
          .pure (Form.update keyword [] clauses)
      split
      · exact mirrors_insertForm twins next reads keyword rest
      · exact raw
    | group inner => exact raw
    | case inner =>
      obtain ⟨word, closing, depth, operand, branches⟩ := inner
      simp only [recastRun, Element.recast] at raw ⊢
      exact raw

theorem mirrors_mergeBranches (next : Reader) (reads : next.Mirrors change)
    (parts : List (Token × List Element × List Element)) :
    Build.Mirrors (recastMerge change) (mergeBranches next parts)
      (mergeBranches next (parts.map fun (keyword, head, action) =>
        (change keyword, recastRun change head, recastRun change action))) := by
  induction parts with
  | nil => exact .pure []
  | cons part rest ih =>
    obtain ⟨keyword, head, action⟩ := part
    exact (mirrors_mergeAction twins next reads action).bind fun form =>
      ih.bind fun others => .pure (⟨keyword, head, form⟩ :: others)

theorem mirrors_mergeForm (next : Reader) (reads : next.Mirrors change) (keyword : Token)
    (rest : List Element) :
    Build.Mirrors (Form.recast change) (mergeForm next keyword rest)
      (mergeForm next (change keyword) (recastRun change rest)) := by
  unfold mergeForm
  simp only [takeWhile_not_keyword twins, dropWhile_not_keyword twins]
  generalize rest.takeWhile (!Element.isKeyword ["USING"] ·) = target
  cases rest.dropWhile (!Element.isKeyword ["USING"] ·) with
  | nil => exact .pure (Form.raw (.token keyword :: rest))
  | cons element after =>
    cases element with
    | token usingWord =>
      have finish (source : List Element) (conditions : List (Condition Element))
          (branches : List Element) : Build.Mirrors (Form.recast change)
          (do
            let found ← mergeBranches next (mergeParts branches)
            return Form.merge keyword target ⟨usingWord, source, conditions⟩ found)
          (do
            let found ← mergeBranches next (mergeParts (recastRun change branches))
            return Form.merge (change keyword) (recastRun change target)
              ⟨change usingWord, recastRun change source, recastConditions change conditions⟩
              found) := by
        rw [mergeParts_recast twins]
        exact (mirrors_mergeBranches twins next reads _).bind fun found =>
          .pure (Form.merge keyword target ⟨usingWord, source, conditions⟩ found)
      simp only [recastRun, Element.recast, takeWhile_not_keyword twins,
        dropWhile_not_keyword twins]
      cases found : after.dropWhile (!Element.isKeyword ["ON", "WHEN"] ·) with
      | nil => exact finish _ [] []
      | cons element others =>
        cases element with
        | token word =>
          have reserved := isReserved_of_dropWhile _ after others word found
          simp only [recastRun, Element.recast, (twins word).contents reserved]
          split
          · have finished := finish (after.takeWhile (!Element.isKeyword ["ON", "WHEN"] ·))
              (conditionsAfter word (others.takeWhile (!Element.isKeyword ["WHEN"] ·)))
              (others.dropWhile (!Element.isKeyword ["WHEN"] ·))
            rw [← conditionsAfter_recast twins] at finished
            simpa only [takeWhile_not_keyword twins, dropWhile_not_keyword twins] using finished
          · exact finish _ [] (.token word :: others)
        | group inner => exact finish _ [] (.group inner :: others)
        | case inner =>
          have finished := finish (after.takeWhile (!Element.isKeyword ["ON", "WHEN"] ·)) []
            (.case inner :: others)
          obtain ⟨word, closing, depth, operand, branches⟩ := inner
          simp only [recastRun, Element.recast] at finished ⊢
          exact finished
    | group inner => exact .pure (Form.raw (.token keyword :: rest))
    | case inner =>
      obtain ⟨word, closing, depth, operand, branches⟩ := inner
      simp only [recastRun, Element.recast]
      exact .pure (Form.raw (.token keyword :: rest))

theorem mirrors_createForm (next : Reader) (reads : next.Mirrors change) (keyword : Token)
    (rest : List Element) :
    Build.Mirrors (Form.recast change) (createForm next keyword rest)
      (createForm next (change keyword) (recastRun change rest)) := by
  have ends (element : Element) :
      (!((element.recast change).isGroup || (element.recast change).isKeyword ["AS"])) =
      !(element.isGroup || element.isKeyword ["AS"]) := by
    rw [isGroup_recast, isKeyword_recast twins]
  have takes := takeWhile_recastRun
    (fun element : Element => !(element.isGroup || element.isKeyword ["AS"])) ends rest
  have drops := dropWhile_recastRun
    (fun element : Element => !(element.isGroup || element.isKeyword ["AS"])) ends rest
  unfold createForm
  simp only [takes, drops, takeColumns_recast twins, ← recastColumns_eq_map,
    any_recastRun _ (isKeyword_recast twins ["TABLE", "VIEW", "MATERIALIZED VIEW"])]
  generalize rest.takeWhile
    (fun element : Element => !(element.isGroup || element.isKeyword ["AS"])) = object
  generalize takeColumns (rest.dropWhile
    fun element : Element => !(element.isGroup || element.isKeyword ["AS"])) = parts
  obtain ⟨columns, after⟩ := parts
  split
  · have run : Build.Mirrors (Form.recast change)
        (pure (Form.create keyword object columns (.run after)) : Build Form)
        (pure (Form.create (change keyword) (recastRun change object)
          (recastColumns change columns) (.run (recastRun change after)))) :=
      .pure (Form.create keyword object columns (.run after))
    cases after with
    | nil => exact .pure (Form.create keyword object columns .nothing)
    | cons element query =>
      cases element with
      | token word =>
        simp only [recastRun, Element.recast] at run ⊢
        simp only [(twins word).isKeyword]
        split
        · exact (reads query).bind fun body =>
            .pure (Form.create keyword object columns (.query word body))
        · exact run
      | group inner => exact run
      | case inner =>
        obtain ⟨word, closing, depth, operand, branches⟩ := inner
        simp only [recastRun, Element.recast] at run ⊢
        exact run
  · exact .pure (Form.raw (.token keyword :: rest))

theorem mirrors_formOf (next : Reader) (reads : next.Mirrors change) (elements : List Element) :
    Build.Mirrors (Form.recast change) (formOf next elements)
      (formOf next (recastRun change elements)) := by
  have raw : Build.Mirrors (Form.recast change) (pure (Form.raw elements) : Build Form)
      (pure (Form.raw (recastRun change elements))) := .pure (Form.raw elements)
  have query : Build.Mirrors (Form.recast change)
      (do return .query (← Build.clauses queryClauses elements))
      (do return .query (← Build.clauses queryClauses (recastRun change elements))) :=
    (mirrors_clauses twins queryClauses elements).bind fun clauses => .pure (Form.query clauses)
  unfold formOf
  cases elements with
  | nil => exact raw
  | cons element rest =>
    cases element with
    | token first =>
      simp only [recastRun, Element.recast] at raw query ⊢
      simp only [(twins first).isKeyword]
      split
      · exact mirrors_withForm twins next reads first rest
      split
      · exact query
      split
      · exact mirrors_insertForm twins next reads first rest
      split
      · exact mirrors_updateForm twins first rest
      split
      · exact mirrors_deleteForm twins first rest
      split
      · exact mirrors_mergeForm twins next reads first rest
      split
      · exact mirrors_createForm twins next reads first rest
      split
      · have cut := cutAtWords_recast twins ["ON", "TO", "FROM"] rest
        simp only [grantForm, cut]
        exact .pure (Form.grant first _ _)
      · exact raw
    | group inner =>
      simp only [recastRun, Element.recast] at raw query ⊢
      simp only [isSubquery_recast]
      split
      · exact query
      · exact raw
    | case inner =>
      obtain ⟨word, closing, depth, operand, branches⟩ := inner
      simp only [recastRun, Element.recast] at raw ⊢
      exact raw

omit twins in
theorem tokensOf_recast (elements : List Element) :
    tokensOf (recastRun change elements) = (tokensOf elements).map change := by
  induction elements with
  | nil => rfl
  | cons element rest ih =>
    cases element with
    | token token => exact congrArg (change token :: ·) ih
    | group inner => exact ih
    | case inner =>
      rw [recastRun, Element.recast]
      exact ih

theorem mirrors_statementWith (next : Reader) (reads : next.Mirrors change) :
    Reader.Mirrors change (statementWith next) := by
  intro elements
  unfold statementWith
  simp only [takeWhile_recastRun _ (isComment_recast twins),
    dropWhile_recastRun _ (isComment_recast twins),
    splitTrailing_recast _ (isComment_recast twins), tokensOf_recast]
  exact (mirrors_formOf twins next reads _).bind fun form => .pure (Statement.mk _ form _)

theorem mirrors_statementOf : Reader.Mirrors change statementOf := by
  have fueled (fuel : Nat) : Reader.Mirrors change (statementFuel fuel) := by
    induction fuel with
    | zero =>
      intro elements
      exact .pure (Statement.ofForm (.raw elements))
    | succ fuel ih => exact mirrors_statementWith twins _ ih
  intro elements
  rw [statementOf, statementOf, length_recastRun]
  exact fueled (elements.length + 1) elements

end Forms

section Walking

variable {change : Token → Token} (twins : ∀ token, Twin token (change token))
  (vocabulary : Vocabulary)

def Frame.recast (change : Token → Token) (frame : Frame) : Frame :=
  ⟨change frame.opening, recastRun change frame.before⟩

include twins

theorem names_recast (element : Element) :
    vocabulary.names (element.recast change) = vocabulary.names element := by
  cases element with
  | token token =>
    have reserved := (twins token).ofReserved fun contents =>
      Keyword.groupingFunctions.contains contents ||
        vocabulary.registry.isFunction contents vocabulary.functions ||
        vocabulary.registry.isDataType contents
    simp only [Element.recast, Vocabulary.names, (twins token).kind, reserved]
  | group inner => rfl
  | case inner => rfl

theorem mirrors_groupOf (depth : Nat) (frame : Frame) (content : List Element)
    (closing : Token) :
    Build.Mirrors (Group.recast change) (groupOf vocabulary depth frame content closing)
      (groupOf vocabulary depth (frame.recast change) (recastRun change content)
        (change closing)) := by
  have last : (recastRun change frame.before).getLast?.any vocabulary.names =
      frame.before.getLast?.any vocabulary.names := by
    rw [recastRun_eq_map, List.getLast?_map, Option.any_map]
    exact congrArg (Option.any · _) (funext (names_recast twins vocabulary))
  have comment (element : Element) :
      (element.recast change).isComment = element.isComment := isComment_recast twins element
  have first (elements : List Element) :
      ((recastRun change elements).dropWhile Element.isComment |>.head?).any
          (Element.isKeyword ["SELECT", "WITH"]) =
        (elements.dropWhile Element.isComment |>.head?).any
          (Element.isKeyword ["SELECT", "WITH"]) := by
    rw [dropWhile_recastRun _ comment, head?_recastRun, Option.any_map]
    exact congrArg (Option.any · _) (funext (isKeyword_recast twins _))
  unfold groupOf
  simp only [groupCases_recast twins, first, any_recastRun _ (isComma_recast twins), last,
    Frame.recast]
  refine (Build.Mirrors.modified _ _).bind fun _ => ?_
  split
  · exact (mirrors_statementOf twins _).bind fun body => .pure
      (Group.mk frame.opening closing depth .subquery (some body) [] [])
  · exact .pure (Group.mk frame.opening closing depth _ none (groupCases depth content) [])

theorem mirrors_groupTokens (tokens : List Token) (frames : List Frame)
    (current : List Element) :
    Build.Mirrors (recastRun change) (groupTokens vocabulary frames current tokens)
      (groupTokens vocabulary (frames.map (Frame.recast change)) (recastRun change current)
        (tokens.map change)) := by
  induction tokens generalizing frames current with
  | nil =>
    cases frames with
    | nil =>
      simp only [groupTokens, List.map_nil, groupCases_recast twins]
      exact (Build.Mirrors.modified _ _).bind fun _ => .pure (groupCases 0 current)
    | cons frame rest => exact .throw _ _
  | cons token rest ih =>
    simp only [List.map_cons, groupTokens, (twins token).kind]
    split
    · exact (Build.Mirrors.modified _ _).bind fun _ => ih (⟨token, current⟩ :: frames) []
    split
    · cases frames with
      | nil => exact .throw _ _
      | cons frame others =>
        simp only [List.map_cons, List.length_map]
        refine (Build.Mirrors.modified _ _).bind fun _ => ?_
        refine (mirrors_groupOf twins vocabulary others.length frame current token).bind
          fun group => ?_
        have onward := ih others (frame.before ++ [.group group])
        rwa [recastRun_append] at onward
    · have onward := ih frames (current ++ [.token token])
      rwa [recastRun_append] at onward

omit vocabulary in
theorem countedTokens_map (tokens : List Token) :
    countedTokens (tokens.map change) = (countedTokens tokens).map change := by
  have blank : (fun token : Token => !token.isBlank) ∘ change = fun token => !token.isBlank :=
    funext fun token => by rw [Function.comp, (twins token).isBlank]
  have ends : (fun token : Token => decide (token.kind = .semicolon)) ∘ change =
      fun token => decide (token.kind = .semicolon) :=
    funext fun token => by rw [Function.comp, (twins token).kind]
  simp only [countedTokens, List.filter_map, blank, ← List.map_reverse, List.dropWhile_map, ends]

/-- The tree of tokens with other letters is the tree with those letters. -/
theorem walk_recast (tokens : List Token) :
    (walk vocabulary (tokens.map change)).statement =
      (walk vocabulary tokens).statement.recast change := by
  have built : Build.Mirrors (Statement.recast change) (build vocabulary (countedTokens tokens))
      (build vocabulary (countedTokens (tokens.map change))) := by
    rw [countedTokens_map twins]
    exact (mirrors_groupTokens twins vocabulary _ [] []).bind fun elements =>
      mirrors_statementOf twins elements
  have same := built {} {}
  have raw (tokens : List Token) :
      recastRun change (tokens.map .token) = (tokens.map change).map .token := by
    rw [recastRun_eq_map, List.map_map, List.map_map]
    rfl
  unfold walk
  simp only
  cases first : (build vocabulary (countedTokens tokens)).run {} with
  | mk outcome progress =>
    cases second : (build vocabulary (countedTokens (tokens.map change))).run {} with
    | mk mirrored start =>
      rw [first, second] at same
      cases outcome with
      | ok statement =>
        cases mirrored with
        | ok other => exact Option.some.inj same
        | error misfit => cases same
      | error misfit =>
        cases mirrored with
        | ok other => cases same
        | error misfit =>
          simp only [Statement.ofForm, Statement.recast, Form.recast, raw, List.map_nil,
            countedTokens_map twins]

end Walking

end SqlLayout.Tree
