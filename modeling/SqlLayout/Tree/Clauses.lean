import SqlLayout.Text.Case
import SqlLayout.Tree.Cutting

/-! Clauses. A clause starts at its keyword and runs to the next one; its keyword
says how the run in it is cut further. -/
namespace SqlLayout.Tree

def setOperators : List String :=
  ["UNION", "UNION ALL", "UNION DISTINCT", "INTERSECT", "INTERSECT ALL", "EXCEPT", "EXCEPT ALL",
   "MINUS", "MINUS ALL"]

def queryClauses : List String :=
  setOperators ++
    ["SELECT", "FROM", "WHERE", "GROUP BY", "HAVING", "ORDER BY", "ORDER SIBLINGS BY", "WINDOW",
     "QUALIFY", "LIMIT", "OFFSET", "FETCH", "INTO", "START WITH", "CONNECT BY", "FOR",
     "RETURNING"]

def updateClauses : List String :=
  queryClauses ++ ["SET"]

def predicateClauses : List String :=
  ["WHERE", "HAVING", "START WITH", "CONNECT BY", "QUALIFY"]

/-- Clauses that hold a list of entries, SET apart. -/
def orderingClauses : List String :=
  ["GROUP BY", "ORDER BY", "ORDER SIBLINGS BY"]

def selectModifiers : List String :=
  ["DISTINCT", "ALL", "UNIQUE"]

def Element.isText (word : String) : Element → Bool :=
  isTokenWith fun token => Text.upper token.text = word

/-- JOIN with any words before it, APPLY with a word before it, or STRAIGHT_JOIN. -/
def isJoinKeyword (token : Token) : Bool :=
  let contents := Text.upper token.contents
  (token.isReserved || Text.upper token.text = "STRAIGHT_JOIN") &&
    (contents = "JOIN" || " JOIN".toList.isSuffixOf contents.toList ||
      " APPLY".toList.isSuffixOf contents.toList || contents = "STRAIGHT_JOIN")

/-- Whether a token opens a clause when something stands before it. WITH does so before
a word other than TIES, as in WITH CHECK OPTION, but not before parentheses. -/
def opensClause (keywords : List String) (token : Token) (rest : List Element) : Bool :=
  token.isReserved &&
    (keywords.contains token.contents ||
      (token.contents = "WITH" &&
        (rest.head?.bind Element.token?).any fun next => Text.upper next.text ≠ "TIES"))

/-- The words right after SELECT that are no column: DISTINCT with its ON, and TOP with
its number. `afterTop` allows PERCENT and WITH TIES. -/
def splitModifiers (afterTop : Bool) : List Element → List Element × List Element
  | [] => ([], [])
  | [last] =>
    if (afterTop && last.isText "PERCENT") || last.isKeyword selectModifiers then ([last], [])
    else ([], [last])
  | first :: second :: rest =>
    if afterTop && first.isText "PERCENT" then
      let (words, left) := splitModifiers true (second :: rest)
      (first :: words, left)
    else if afterTop && first.isText "WITH" && second.isText "TIES" then
      let (words, left) := splitModifiers true rest
      (first :: second :: words, left)
    else if first.isKeyword selectModifiers then
      match rest with
      | third :: others =>
        if second.isKeyword ["ON"] && third.isGroup then
          let (words, left) := splitModifiers false others
          (first :: second :: third :: words, left)
        else
          let (words, left) := splitModifiers false (second :: third :: others)
          (first :: words, left)
      | [] =>
        let (words, left) := splitModifiers false [second]
        (first :: words, left)
    else if first.isText "TOP" && (second.isGroup || second.isTokenWith fun token =>
        token.kind = .numberLiteral || token.kind = .placeholder) then
      let (words, left) := splitModifiers true rest
      (first :: second :: words, left)
    else ([], first :: second :: rest)

def joinOf (branch : Branch Element) : Join Element :=
  let isLink := Element.isKeyword ["ON", "USING"]
  let source := branch.elements.takeWhile (!isLink ·)
  match branch.elements.dropWhile (!isLink ·) with
  | .token link :: rest =>
    if link.contents = "ON" then ⟨branch.keyword, source, conditionsAfter link rest, []⟩
    else ⟨branch.keyword, source, [], .token link :: rest⟩
  | _ => ⟨branch.keyword, source, [], []⟩

def clauseBody (keyword : Option String) (elements : List Element) : ClauseBody Element :=
  match keyword with
  | none => .run elements
  | some word =>
    if word = "SELECT" then
      let (modifiers, columns) := splitModifiers false elements
      .projection modifiers (splitItems columns)
    else if word = "FROM" then
      let (tables, joins) := cutAt (fun token _ => isJoinKeyword token) elements
      .sources (splitItems tables) (joins.map joinOf)
    else if predicateClauses.contains word then .predicate (splitConditions elements)
    else if orderingClauses.contains word || word = "SET" then .list (splitItems elements)
    else .run elements

def clauseOf (keyword : Option Token) (elements : List Element) : Clause Element :=
  ⟨keyword, clauseBody (keyword.map Token.contents) elements⟩

/-- Cuts a run into clauses. Only the first may lack a keyword; a WITH in front opens none. -/
def cutClauses (keywords : List String) : List Element → List Element × List (Branch Element)
  | [] => ([], [])
  | first :: rest =>
    let (head, branches) := cutAt (opensClause keywords) rest
    match first with
    | .token token =>
      if token.isKeyword keywords then ([], ⟨token, head⟩ :: branches)
      else (.token token :: head, branches)
    | other => (other :: head, branches)

def splitClauses (keywords : List String) (elements : List Element) : List (Clause Element) :=
  let (head, branches) := cutClauses keywords elements
  let named := branches.map fun branch => clauseOf (some branch.keyword) branch.elements
  if head.isEmpty then named else clauseOf none head :: named

theorem splitModifiers_append (afterTop : Bool) (elements : List Element) :
    (splitModifiers afterTop elements).1 ++ (splitModifiers afterTop elements).2 = elements := by
  fun_induction splitModifiers afterTop elements <;> simp_all

theorem cutClauses_flatten (keywords : List String) (elements : List Element) :
    (cutClauses keywords elements).1 ++
      (cutClauses keywords elements).2.flatMap (fun branch =>
        .token branch.keyword :: branch.elements) = elements := by
  cases elements with
  | nil => rfl
  | cons first rest =>
    have whole := cutAt_flatten (opensClause keywords) rest
    cases first with
    | token token =>
      simp only [cutClauses]
      split
      · rw [List.nil_append, List.flatMap_cons, List.cons_append, whole]
      · rw [List.cons_append, whole]
    | group inner => rw [cutClauses, List.cons_append, whole]
    | case inner => rw [cutClauses, List.cons_append, whole]

theorem cutAt_keyword (opens : Token → List Element → Bool) (elements : List Element)
    (branch : Branch Element) (member : branch ∈ (cutAt opens elements).2) :
    ∃ rest, opens branch.keyword rest = true := by
  induction elements with
  | nil => simp at member
  | cons element rest ih =>
    cases element with
    | token token =>
      simp only [cutAt] at member
      split at member
      · rename_i opened
        rcases List.mem_cons.1 member with rfl | later
        · exact ⟨rest, opened⟩
        · exact ih later
      · exact ih member
    | group inner => exact ih member
    | case inner => exact ih member

theorem cutClauses_keyword (keywords : List String) (elements : List Element)
    (branch : Branch Element) (member : branch ∈ (cutClauses keywords elements).2) :
    branch.keyword.contents ∈ keywords ∨ branch.keyword.contents = "WITH" := by
  have inner (rest : List Element)
      (found : branch ∈ (cutAt (opensClause keywords) rest).2) :
      branch.keyword.contents ∈ keywords ∨ branch.keyword.contents = "WITH" := by
    obtain ⟨after, opened⟩ := cutAt_keyword _ rest branch found
    simp only [opensClause, Bool.and_eq_true, Bool.or_eq_true, List.contains_iff_mem,
      decide_eq_true_eq] at opened
    rcases opened.2 with named | ⟨isWith, -⟩
    · exact .inl named
    · exact .inr isWith
  cases elements with
  | nil => simp [cutClauses] at member
  | cons first rest =>
    cases first with
    | token token =>
      simp only [cutClauses] at member
      split at member
      · rename_i named
        rcases List.mem_cons.1 member with rfl | later
        · simp only [Token.isKeyword, Bool.and_eq_true, List.contains_iff_mem] at named
          exact .inl named.2
        · exact inner rest later
      · exact inner rest member
    | group _ => exact inner rest member
    | case _ => exact inner rest member

end SqlLayout.Tree
