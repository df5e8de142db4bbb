import SqlLayout.Notice
import SqlLayout.Tree.Clauses

/-! Statements by their first word. A statement may end with another one: the query
of an INSERT, of a CREATE or after a WITH. Such a rest is shorter than the whole, so
reading it with one unit of fuel per element always suffices. -/
namespace SqlLayout.Tree

structure Progress where
  /-- The keyword of the clause that was cut last. -/
  clause : Option String := none
  parens : List Role := []
  notices : List Notice := []

/-- Building may fail, and what was done up to then stays visible. -/
abbrev Build : Type → Type :=
  ExceptT Misfit (StateM Progress)

def Build.note (notices : List Notice) : Build Unit :=
  modify fun progress => { progress with notices := progress.notices ++ notices }

def Build.clauses (keywords : List String) (elements : List Element) :
    Build (List (Clause Element)) := do
  let clauses := splitClauses keywords elements
  if let some last := clauses.getLast? then
    modify fun progress => { progress with clause := last.keyword.map Token.contents }
  return clauses

def Element.asTuple : Element → Element
  | .group inner => .group inner.asTuple
  | other => other

/-- The same, but a subquery stays what it is. -/
def Element.asRow : Element → Element
  | .group inner => .group (if inner.isSubquery then inner else inner.asTuple)
  | other => other

def definition (elements : List Element) : Except Misfit (Definition × List Element) :=
  let isAs := Element.isKeyword ["AS"]
  let isModifier (element : Element) := element.isText "NOT" || element.isText "MATERIALIZED"
  let head := elements.takeWhile (!isAs ·)
  match elements.dropWhile (!isAs ·) with
  | .token keyword :: rest =>
    match rest.dropWhile isModifier with
    | .group query :: after =>
      .ok (⟨head.map Element.asTuple, keyword, rest.takeWhile isModifier, query⟩, after)
    | _ => .error .definitionWithoutQuery
  | _ => .error .definitionWithoutAs

theorem length_of_definition (elements rest : List Element) (found : Definition)
    (step : definition elements = .ok (found, rest)) : rest.length < elements.length := by
  unfold definition at step
  simp only at step
  split at step
  · rename_i keyword tail afterAs
    split at step
    · rename_i query after afterModifiers
      simp only [Except.ok.injEq, Prod.mk.injEq] at step
      obtain ⟨_, rfl⟩ := step
      have first := (List.dropWhile_sublist (l := elements)
        (fun element => !Element.isKeyword ["AS"] element)).length_le
      have second := (List.dropWhile_sublist (l := tail)
        (fun element => element.isText "NOT" || element.isText "MATERIALIZED")).length_le
      rw [afterAs] at first
      rw [afterModifiers] at second
      simp only [List.length_cons] at first second
      omega
    · simp at step
  · simp at step

def definitions (elements : List Element) :
    Except Misfit (List Definition × List Token × List Element) :=
  if elements.isEmpty then .ok ([], [], [])
  else
    match _step : definition elements with
    | .error misfit => .error misfit
    | .ok (first, .token comma :: rest) =>
      if comma.kind = .comma then
        match definitions rest with
        | .error misfit => .error misfit
        | .ok (others, commas, after) => .ok (first :: others, comma :: commas, after)
      else .ok ([first], [], .token comma :: rest)
    | .ok (first, rest) => .ok ([first], [], rest)
termination_by elements.length
decreasing_by
  have bound := length_of_definition _ _ _ _step
  simp only [List.length_cons] at bound
  omega

/-- How the rest of a statement is read as a statement. -/
abbrev Reader : Type :=
  List Element → Build Statement

def withForm (next : Reader) (keyword : Token) (rest : List Element) : Build Form := do
  let isRecursive := rest.head?.any (Element.isKeyword ["RECURSIVE"])
  let modifiers := if isRecursive then rest.take 1 else []
  let (found, commas, after) ← definitions (if isRecursive then rest.drop 1 else rest)
  let body ← next after
  return .withQueries keyword modifiers found commas body

/-- The columns in front of a run, if a group stands there that is no subquery. -/
def takeColumns : List Element → Option Group × List Element
  | .group inner :: rest =>
    if inner.isSubquery then (none, .group inner :: rest) else (some inner.asTuple, rest)
  | other => (none, other)

/-- The rows after VALUES up to the next reserved word, which starts a tail. -/
def valuesSource (keyword : Token) (rest : List Element) : InsertSource :=
  let rows := splitItems (rest.takeWhile (!Element.isReserved ·))
  let tail := match rest.dropWhile (!Element.isReserved ·) with
    | .token word :: after => some ⟨word, after⟩
    | _ => none
  .values keyword ⟨rows.items.map (·.map Element.asRow), rows.commas⟩ tail

def insertForm (next : Reader) (keyword : Token) (rest : List Element) : Build Form := do
  let endsTarget (element : Element) :=
    element.isGroup || element.isKeyword ["VALUES", "SELECT", "WITH", "DEFAULT"]
  let target := rest.takeWhile (!endsTarget ·)
  let (columns, after) := takeColumns (rest.dropWhile (!endsTarget ·))
  match after with
  | [] => return .insert keyword target columns .nothing
  | .token word :: values =>
    if word.isKeyword ["VALUES"] then
      return .insert keyword target columns (valuesSource word values)
    else
      return .insert keyword target columns (.statement (← next after))
  | _ => return .insert keyword target columns (.statement (← next after))

/-- UPDATE with a SET somewhere; without one the statement is left as it is. -/
def updateForm (keyword : Token) (rest : List Element) : Build Form := do
  let isSet := Element.isKeyword ["SET"]
  match rest.dropWhile (!isSet ·) with
  | [] => return .raw (.token keyword :: rest)
  | after =>
    return .update keyword (rest.takeWhile (!isSet ·)) (← Build.clauses updateClauses after)

def deleteForm (keyword : Token) (rest : List Element) : Build Form := do
  let skipped := if rest.head?.any (Element.isKeyword ["FROM"]) then 1 else 0
  let (head, _) := cutAt (opensClause queryClauses) (rest.drop skipped)
  let size := skipped + head.length
  return .delete keyword (rest.take size) (← Build.clauses queryClauses (rest.drop size))

/-- The WHEN parts of a MERGE: each has the words up to and with THEN, then its action
up to the next WHEN. -/
def mergeParts (elements : List Element) : List (Token × List Element × List Element) :=
  match elements with
  | .token keyword :: rest =>
    let isThen := Element.isKeyword ["THEN"]
    let isWhen := Element.isKeyword ["WHEN"]
    let afterHead := rest.dropWhile (!isThen ·)
    let head := rest.takeWhile (!isThen ·) ++ afterHead.take 1
    let actions := afterHead.drop 1
    (keyword, head, actions.takeWhile (!isWhen ·)) :: mergeParts (actions.dropWhile (!isWhen ·))
  | _ => []
termination_by elements.length
decreasing_by
  have first := (List.dropWhile_sublist (l := rest)
    (fun element => !Element.isKeyword ["THEN"] element)).length_le
  have second := (List.dropWhile_sublist
    (l := (rest.dropWhile (fun element => !Element.isKeyword ["THEN"] element)).drop 1)
    (fun element => !Element.isKeyword ["WHEN"] element)).length_le
  simp only [List.length_drop] at second
  simp only [List.length_cons]
  omega

def mergeAction (next : Reader) (elements : List Element) : Build Form := do
  match elements with
  | .token keyword :: rest =>
    if keyword.isKeyword ["UPDATE"] then
      return .update keyword [] (← Build.clauses (updateClauses ++ ["DELETE"]) rest)
    else if keyword.isKeyword ["INSERT"] then insertForm next keyword rest
    else return .raw elements
  | _ => return .raw elements

def mergeBranches (next : Reader) :
    List (Token × List Element × List Element) → Build (List MergeBranch)
  | [] => return []
  | (keyword, head, action) :: rest => do
    let form ← mergeAction next action
    let others ← mergeBranches next rest
    return ⟨keyword, head, form⟩ :: others

def mergeForm (next : Reader) (keyword : Token) (rest : List Element) : Build Form := do
  let isUsing := Element.isKeyword ["USING"]
  let isWhen := Element.isKeyword ["WHEN"]
  let endsSource := Element.isKeyword ["ON", "WHEN"]
  match rest.dropWhile (!isUsing ·) with
  | .token usingWord :: after =>
    let source := after.takeWhile (!endsSource ·)
    let (conditions, branches) := match after.dropWhile (!endsSource ·) with
      | .token word :: others =>
        if word.contents = "ON" then
          (conditionsAfter word (others.takeWhile (!isWhen ·)), others.dropWhile (!isWhen ·))
        else ([], .token word :: others)
      | others => ([], others)
    let found ← mergeBranches next (mergeParts branches)
    return .merge keyword (rest.takeWhile (!isUsing ·)) ⟨usingWord, source, conditions⟩ found
  | _ => return .raw (.token keyword :: rest)

/-- CREATE of a table or a view; anything else that is created is left as it is. -/
def createForm (next : Reader) (keyword : Token) (rest : List Element) : Build Form := do
  let endsObject (element : Element) := element.isGroup || element.isKeyword ["AS"]
  let object := rest.takeWhile (!endsObject ·)
  if object.any (Element.isKeyword ["TABLE", "VIEW", "MATERIALIZED VIEW"]) then
    let (columns, after) := takeColumns (rest.dropWhile (!endsObject ·))
    match after with
    | [] => return .create keyword object columns .nothing
    | .token word :: query =>
      if word.isKeyword ["AS"] then
        return .create keyword object columns (.query word (← next query))
      else return .create keyword object columns (.run after)
    | _ => return .create keyword object columns (.run after)
  else return .raw (.token keyword :: rest)

def grantForm (keyword : Token) (rest : List Element) : Form :=
  let (privileges, clauses) := cutAtWords ["ON", "TO", "FROM"] rest
  .grant keyword privileges clauses

def formOf (next : Reader) (elements : List Element) : Build Form := do
  match elements with
  | .token first :: rest =>
    if first.isKeyword ["WITH"] then withForm next first rest
    else if first.isKeyword ["SELECT"] then return .query (← Build.clauses queryClauses elements)
    else if first.isKeyword ["INSERT"] then insertForm next first rest
    else if first.isKeyword ["UPDATE"] then updateForm first rest
    else if first.isKeyword ["DELETE"] then deleteForm first rest
    else if first.isKeyword ["MERGE"] then mergeForm next first rest
    else if first.isKeyword ["CREATE", "CREATE OR REPLACE"] then createForm next first rest
    else if first.isKeyword ["GRANT", "REVOKE"] then return grantForm first rest
    else return .raw elements
  | .group first :: _ =>
    if first.isSubquery then return .query (← Build.clauses queryClauses elements)
    else return .raw elements
  | _ => return .raw elements

/-- The tokens of elements that are known to be tokens. -/
def tokensOf (elements : List Element) : List Token :=
  elements.filterMap Element.token?

/-- A statement without the comments at its ends, which are kept apart. -/
def statementWith (next : Reader) (elements : List Element) : Build Statement := do
  let leading := elements.takeWhile Element.isComment
  let (body, trailing) := splitTrailing Element.isComment (elements.dropWhile Element.isComment)
  let form ← formOf next body
  return ⟨tokensOf leading, form, tokensOf trailing⟩

/-- Reads a statement with as many statements in its rests as there is fuel. -/
def statementFuel : Nat → Reader
  | 0, elements => return .ofForm (.raw elements)
  | fuel + 1, elements => statementWith (statementFuel fuel) elements

def statementOf : Reader := fun elements =>
  statementFuel (elements.length + 1) elements

end SqlLayout.Tree
