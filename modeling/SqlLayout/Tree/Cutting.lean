import SqlLayout.Tree.Basic

/-! Cutting runs of elements: before keywords, at commas, and at AND and OR. A group
or a CASE expression is one element, so nothing inside it is cut. -/
namespace SqlLayout.Tree

/-- Cuts before every token that opens a branch, which may depend on what follows the
token. The first part is what stands before all branches. -/
def cutAt (opens : Token → List Element → Bool) :
    List Element → List Element × List (Branch Element)
  | [] => ([], [])
  | element :: rest =>
    let (head, branches) := cutAt opens rest
    match element with
    | .token token =>
      if opens token rest then ([], ⟨token, head⟩ :: branches)
      else (.token token :: head, branches)
    | other => (other :: head, branches)

def cutAtWords (words : List String) : List Element → List Element × List (Branch Element) :=
  cutAt fun token _ => token.isKeyword words

/-- The part up to the last element without the property, and what is left. -/
def splitTrailing (belongs : Element → Bool) (elements : List Element) :
    List Element × List Element :=
  ((elements.reverse.dropWhile belongs).reverse, (elements.reverse.takeWhile belongs).reverse)

/-- The runs between the commas of a run, and the commas. There is always one run more. -/
def cutCommas : List Element → List Element × List (Token × List Element)
  | [] => ([], [])
  | element :: rest =>
    let (head, others) := cutCommas rest
    match element with
    | .token token =>
      if token.kind = .comma then ([], (token, head) :: others)
      else (.token token :: head, others)
    | other => (other :: head, others)

/-- Line comments at the end of an item go to the front of the next item, so that the
comma after the item is not swallowed. -/
def moveLineComments (carried : List Element) : List (List Element) → List (List Element)
  | [] => []
  | [last] => [carried ++ last]
  | item :: rest =>
    let (kept, moved) := splitTrailing Element.isLineComment (carried ++ item)
    kept :: moveLineComments moved rest

def splitItems (elements : List Element) : Items Element :=
  if elements.isEmpty then ⟨[], []⟩
  else
    let (first, others) := cutCommas elements
    ⟨moveLineComments [] (first :: others.map Prod.snd), others.map Prod.fst⟩

/-- The chain of a run, as what stands before the first connector and the conditions
after it. `between` says that a BETWEEN still waits for its AND. -/
def cutConditions (between : Bool) : List Element → List Element × List (Condition Element)
  | [] => ([], [])
  | element :: rest =>
    if element.isKeyword ["AND", "OR"] then
      if between && element.isKeyword ["AND"] then
        let (head, others) := cutConditions false rest
        (element :: head, others)
      else
        let (head, others) := cutConditions between rest
        ([], ⟨element.token?, head⟩ :: others)
    else
      let (head, others) := cutConditions (between || element.isKeyword ["BETWEEN"]) rest
      (element :: head, others)

/-- The conditions of a run. The first has no connector; an empty run has none. -/
def splitConditions (elements : List Element) : List (Condition Element) :=
  if elements.isEmpty then []
  else
    let (head, others) := cutConditions false elements
    ⟨none, head⟩ :: others

/-- The conditions after a keyword, which becomes the connector of the first. -/
def conditionsAfter (keyword : Token) (elements : List Element) : List (Condition Element) :=
  let (head, others) := cutConditions false elements
  ⟨some keyword, head⟩ :: others

/-- A group as a tuple: its run cut into items, whatever it was opened for. -/
def Group.asTuple (group : Group) : Group :=
  { group with role := .tuple, items := (splitItems group.elements).items }

@[simp] theorem cutAt_nil (opens : Token → List Element → Bool) : cutAt opens [] = ([], []) := rfl

@[simp] theorem cutCommas_nil : cutCommas [] = ([], []) := rfl

@[simp] theorem cutConditions_nil (between : Bool) : cutConditions between [] = ([], []) := rfl

@[simp] theorem splitItems_nil : splitItems [] = ⟨[], []⟩ := rfl

@[simp] theorem splitConditions_nil : splitConditions [] = [] := rfl

theorem splitTrailing_append (belongs : Element → Bool) (elements : List Element) :
    (splitTrailing belongs elements).1 ++ (splitTrailing belongs elements).2 = elements := by
  rw [splitTrailing, ← List.reverse_append, List.takeWhile_append_dropWhile, List.reverse_reverse]

theorem belongs_of_mem_trailing (belongs : Element → Bool) (elements : List Element)
    (element : Element) (member : element ∈ (splitTrailing belongs elements).2) :
    belongs element = true := by
  rw [splitTrailing, List.mem_reverse] at member
  exact List.all_eq_true.1 List.all_takeWhile element member

theorem cutAt_flatten (opens : Token → List Element → Bool) (elements : List Element) :
    (cutAt opens elements).1 ++
      (cutAt opens elements).2.flatMap (fun branch => .token branch.keyword :: branch.elements) =
      elements := by
  induction elements with
  | nil => rfl
  | cons element rest ih =>
    cases element with
    | token token =>
      simp only [cutAt]
      split
      · rw [List.nil_append, List.flatMap_cons, List.cons_append, ih]
      · rw [List.cons_append, ih]
    | group inner => rw [cutAt, List.cons_append, ih]
    | case inner => rw [cutAt, List.cons_append, ih]

theorem cutCommas_flatten (elements : List Element) :
    (cutCommas elements).1 ++
      (cutCommas elements).2.flatMap (fun part => .token part.1 :: part.2) = elements := by
  induction elements with
  | nil => rfl
  | cons element rest ih =>
    cases element with
    | token token =>
      simp only [cutCommas]
      split
      · rw [List.nil_append, List.flatMap_cons, List.cons_append, ih]
      · rw [List.cons_append, ih]
    | group inner => rw [cutCommas, List.cons_append, ih]
    | case inner => rw [cutCommas, List.cons_append, ih]

theorem cutCommas_kind (elements : List Element) (part : Token × List Element)
    (member : part ∈ (cutCommas elements).2) : part.1.kind = .comma := by
  induction elements with
  | nil => simp at member
  | cons element rest ih =>
    cases element with
    | token token =>
      simp only [cutCommas] at member
      split at member
      · rename_i isComma
        rcases List.mem_cons.1 member with rfl | later
        · exact isComma
        · exact ih later
      · exact ih member
    | group inner => exact ih member
    | case inner => exact ih member

theorem cutConditions_flatten (between : Bool) (elements : List Element) :
    (cutConditions between elements).1 ++
      (cutConditions between elements).2.flatMap (fun condition =>
        condition.connector.toList.map .token ++ condition.elements) = elements := by
  induction elements generalizing between with
  | nil => rfl
  | cons element rest ih =>
    simp only [cutConditions]
    split
    · rename_i isConnector
      split
      · rw [List.cons_append, ih]
      · cases element with
        | token token => simp [Element.token?, ih]
        | group inner => simp [Element.isKeyword, Element.isTokenWith, Element.token?] at isConnector
        | case inner => simp [Element.isKeyword, Element.isTokenWith, Element.token?] at isConnector
    · rw [List.cons_append, ih]

theorem length_moveLineComments (carried : List Element) (items : List (List Element)) :
    (moveLineComments carried items).length = items.length := by
  induction items generalizing carried with
  | nil => rfl
  | cons item rest ih =>
    cases rest with
    | nil => rfl
    | cons next others => simp [moveLineComments, ih]

end SqlLayout.Tree
