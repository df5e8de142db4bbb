import SqlLayout.Proofs.Conservation

/-! A tree as loose records. A node says of what kind it is; which of its other fields are
filled depends on that kind and on what its statement has, and nothing in the type of a node
says so. The nodes of a tree have the same tokens as the tree. -/
namespace SqlLayout.Tree

inductive NodeKind where
  | select
  | insert
  | update
  | delete
  | merge
  | cte
  | create
  | grant
  | clause
  | join
  | case
  | parenGroup
  | raw
  deriving DecidableEq, Repr

mutual

inductive Part where
  | token (token : Token)
  | node (node : Node)

/-- A part of a tree, whatever its kind. -/
structure Node where
  kind : NodeKind
  keyword : Option Token := none
  closing : Option Token := none
  elements : List Part := []
  items : List (List Part) := []
  /-- The commas that the items lost. -/
  separators : List Token := []
  conditions : List (Condition Part) := []
  children : List Node := []
  body : Option Node := none
  role : Option Role := none
  leading : List Token := []
  trailing : List Token := []

end

namespace Part

def token? : Part → Option Token
  | .token word => some word
  | .node _ => none

def isKeyword (words : List String) (part : Part) : Bool :=
  part.token?.any (Token.isKeyword · words)

end Part

def Node.isSubquery (node : Node) : Bool :=
  node.kind = .parenGroup && node.role = some .subquery

mutual

def Element.part : Element → Part
  | .token token => .token token
  | .group group => .node group.node
  | .case ⟨keyword, closing, _, operand, branches⟩ =>
    .node {
      kind := .case, keyword := keyword, closing := closing, elements := partsOf operand,
      children := nodesOfBranches branches }

def Group.node : Group → Node
  | ⟨opening, closing, _, role, body, elements, items⟩ =>
    { kind := .parenGroup, keyword := opening, closing := closing, elements := partsOf elements,
      items := partsOfRuns items, body := nodeOfBody body, role := role }

def partsOf : List Element → List Part
  | [] => []
  | element :: rest => element.part :: partsOf rest

def partsOfRuns : List (List Element) → List (List Part)
  | [] => []
  | run :: rest => partsOf run :: partsOfRuns rest

def nodeOfBody : Option Statement → Option Node
  | none => none
  | some statement => some statement.node

def nodesOfBranches : List (Branch Element) → List Node
  | [] => []
  | ⟨keyword, elements⟩ :: rest =>
    { kind := .clause, keyword := keyword, elements := partsOf elements } :: nodesOfBranches rest

def partsOfConditions : List (Condition Element) → List (Condition Part)
  | [] => []
  | ⟨connector, elements⟩ :: rest => ⟨connector, partsOf elements⟩ :: partsOfConditions rest

def nodesOfJoins : List (Join Element) → List Node
  | [] => []
  | ⟨keyword, source, conditions, columns⟩ :: rest =>
    { kind := .join, keyword := keyword, items := [partsOf source],
      conditions := partsOfConditions conditions, elements := partsOf columns } ::
      nodesOfJoins rest

def nodeOfClause (keyword : Option Token) : ClauseBody Element → Node
  | .run elements => { kind := .clause, keyword := keyword, elements := partsOf elements }
  | .projection modifiers ⟨items, commas⟩ =>
    { kind := .clause, keyword := keyword, elements := partsOf modifiers,
      items := partsOfRuns items, separators := commas }
  | .sources ⟨items, commas⟩ joins =>
    { kind := .clause, keyword := keyword, items := partsOfRuns items, separators := commas,
      children := nodesOfJoins joins }
  | .predicate conditions =>
    { kind := .clause, keyword := keyword, conditions := partsOfConditions conditions }
  | .list ⟨items, commas⟩ =>
    { kind := .clause, keyword := keyword, items := partsOfRuns items, separators := commas }

def nodesOfClauses : List (Clause Element) → List Node
  | [] => []
  | ⟨keyword, body⟩ :: rest => nodeOfClause keyword body :: nodesOfClauses rest

def Statement.node : Statement → Node
  | ⟨leading, form, trailing⟩ => { form.node with leading := leading, trailing := trailing }

def nodesOfColumns : Option Group → List Node
  | none => []
  | some group => [group.node]

def nodesOfTail : Option (Branch Element) → List Node
  | none => []
  | some ⟨keyword, elements⟩ =>
    [{ kind := .clause, keyword := keyword, elements := partsOf elements }]

def Form.node : Form → Node
  | .query clauses => { kind := .select, children := nodesOfClauses clauses }
  | .insert keyword target columns source =>
    { kind := .insert, keyword := keyword, elements := partsOf target,
      children := nodesOfColumns columns ++ source.nodes, body := source.body? }
  | .update keyword target clauses =>
    { kind := .update, keyword := keyword, elements := partsOf target,
      children := nodesOfClauses clauses }
  | .delete keyword target clauses =>
    { kind := .delete, keyword := keyword, elements := partsOf target,
      children := nodesOfClauses clauses }
  | .merge keyword target ⟨usingWord, source, conditions⟩ branches =>
    { kind := .merge, keyword := keyword, elements := partsOf target,
      children :=
        { kind := .clause, keyword := usingWord, items := [partsOf source],
          conditions := partsOfConditions conditions } :: nodesOfMerge branches }
  | .withQueries keyword modifiers definitions commas body =>
    { kind := .cte, keyword := keyword, elements := partsOf modifiers, separators := commas,
      children := nodesOfDefinitions definitions, body := body.node }
  | .create keyword object columns rest =>
    { kind := .create, keyword := keyword, elements := partsOf object,
      children := nodesOfColumns columns ++ rest.nodes }
  | .grant keyword privileges clauses =>
    { kind := .grant, keyword := keyword, elements := partsOf privileges,
      children := nodesOfBranches clauses }
  | .raw elements => { kind := .raw, elements := partsOf elements }

def InsertSource.nodes : InsertSource → List Node
  | .nothing => []
  | .values keyword ⟨items, commas⟩ tail =>
    { kind := .clause, keyword := keyword, items := partsOfRuns items, separators := commas } ::
      nodesOfTail tail
  | .statement _ => []

def InsertSource.body? : InsertSource → Option Node
  | .nothing => none
  | .values _ _ _ => none
  | .statement body => some body.node

def CreateRest.nodes : CreateRest → List Node
  | .nothing => []
  | .query keyword body => [{ kind := .clause, keyword := keyword, body := body.node }]
  | .run elements => [{ kind := .clause, elements := partsOf elements }]

def nodesOfMerge : List MergeBranch → List Node
  | [] => []
  | ⟨keyword, head, action⟩ :: rest =>
    { kind := .clause, keyword := keyword, elements := partsOf head, body := action.node } ::
      nodesOfMerge rest

def nodesOfDefinitions : List Definition → List Node
  | [] => []
  | ⟨head, keyword, modifiers, query⟩ :: rest =>
    { kind := .clause, keyword := keyword, elements := partsOf head,
      items := if modifiers.isEmpty then [] else [partsOf modifiers], body := query.node } ::
      nodesOfDefinitions rest

end

def Branch.node (branch : Branch Element) : Node :=
  { kind := .clause, keyword := branch.keyword, elements := partsOf branch.elements }

def Condition.parts (condition : Condition Element) : Condition Part :=
  ⟨condition.connector, partsOf condition.elements⟩

def Join.node (join : Join Element) : Node :=
  { kind := .join, keyword := join.keyword, items := [partsOf join.source],
    conditions := partsOfConditions join.conditions, elements := partsOf join.columns }

def Clause.node (clause : Clause Element) : Node :=
  nodeOfClause clause.keyword clause.body

def MergeBranch.node (branch : MergeBranch) : Node :=
  { kind := .clause, keyword := branch.keyword, elements := partsOf branch.head,
    body := branch.action.node }

def Definition.node (definition : Definition) : Node :=
  { kind := .clause, keyword := definition.keyword, elements := partsOf definition.head,
    items := if definition.modifiers.isEmpty then [] else [partsOf definition.modifiers],
    body := definition.query.node }

section Members

attribute [local simp] partsOf partsOfRuns nodesOfBranches partsOfConditions nodesOfJoins
  nodesOfClauses nodesOfMerge nodesOfDefinitions

theorem partsOf_eq_map (elements : List Element) :
    partsOf elements = elements.map Element.part := by
  induction elements with
  | nil => rfl
  | cons element rest ih => simp [ih]

theorem partsOfRuns_eq_map (runs : List (List Element)) :
    partsOfRuns runs = runs.map partsOf := by
  induction runs with
  | nil => rfl
  | cons run rest ih => simp [ih]

theorem nodesOfBranches_eq_map (branches : List (Branch Element)) :
    nodesOfBranches branches = branches.map Branch.node := by
  induction branches with
  | nil => rfl
  | cons branch rest ih => simp [ih, Branch.node]

theorem partsOfConditions_eq_map (conditions : List (Condition Element)) :
    partsOfConditions conditions = conditions.map Condition.parts := by
  induction conditions with
  | nil => rfl
  | cons condition rest ih => simp [ih, Condition.parts]

theorem nodesOfJoins_eq_map (joins : List (Join Element)) :
    nodesOfJoins joins = joins.map Join.node := by
  induction joins with
  | nil => rfl
  | cons join rest ih => simp [ih, Join.node]

theorem nodesOfClauses_eq_map (clauses : List (Clause Element)) :
    nodesOfClauses clauses = clauses.map Clause.node := by
  induction clauses with
  | nil => rfl
  | cons clause rest ih => simp [ih, Clause.node]

theorem nodesOfMerge_eq_map (branches : List MergeBranch) :
    nodesOfMerge branches = branches.map MergeBranch.node := by
  induction branches with
  | nil => rfl
  | cons branch rest ih =>
    obtain ⟨keyword, head, action⟩ := branch
    simp [ih, MergeBranch.node]

theorem nodesOfDefinitions_eq_map (definitions : List Definition) :
    nodesOfDefinitions definitions = definitions.map Definition.node := by
  induction definitions with
  | nil => rfl
  | cons definition rest ih =>
    obtain ⟨head, keyword, modifiers, query⟩ := definition
    simp [ih, Definition.node]

end Members

mutual

def Part.collect : Part → List Token
  | .token token => [token]
  | .node node => node.collect

def Node.collect : Node → List Token
  | ⟨_, keyword, closing, elements, items, separators, conditions, children, body, _, leading,
      trailing⟩ =>
    leading ++ keyword.toList ++ collectParts elements ++ collectPartRuns items ++ separators ++
      collectPartConditions conditions ++ collectNodes children ++ collectNode? body ++
      closing.toList ++ trailing

def collectParts : List Part → List Token
  | [] => []
  | part :: rest => part.collect ++ collectParts rest

def collectPartRuns : List (List Part) → List Token
  | [] => []
  | run :: rest => collectParts run ++ collectPartRuns rest

def collectPartConditions : List (Condition Part) → List Token
  | [] => []
  | ⟨connector, elements⟩ :: rest =>
    connector.toList ++ collectParts elements ++ collectPartConditions rest

def collectNodes : List Node → List Token
  | [] => []
  | node :: rest => node.collect ++ collectNodes rest

def collectNode? : Option Node → List Token
  | none => []
  | some node => node.collect

end

def Part.tokens (part : Part) : List Token :=
  inTextOrder part.collect

section Collecting

variable {token : Token}

theorem collectNodes_append (first second : List Node) :
    collectNodes (first ++ second) = collectNodes first ++ collectNodes second := by
  induction first with
  | nil => rfl
  | cons node rest ih => rw [List.cons_append, collectNodes, collectNodes, ih, List.append_assoc]

theorem Node.mem_collect_commented (node : Node) (leading trailing : List Token)
    (bare : node.leading = [] ∧ node.trailing = []) :
    token ∈ ({ node with leading := leading, trailing := trailing } : Node).collect ↔
      token ∈ leading ∨ token ∈ node.collect ∨ token ∈ trailing := by
  obtain ⟨first, last⟩ := bare
  cases node
  subst first last
  simp only [Node.collect, List.mem_append, List.nil_append, List.append_nil]
  grind

theorem Form.node_bare (form : Form) : form.node.leading = [] ∧ form.node.trailing = [] := by
  cases form with
  | merge _ _ source _ =>
    cases source
    exact ⟨rfl, rfl⟩
  | _ => exact ⟨rfl, rfl⟩

mutual

theorem Element.mem_collect_part (element : Element) :
    token ∈ element.part.collect ↔ token ∈ element.collect := by
  match element with
  | .token word => rfl
  | .group group => exact group.mem_collect_node
  | .case ⟨keyword, closing, _, operand, branches⟩ =>
    simp [Element.part, Part.collect, Node.collect, Element.collect, collectPartRuns,
      collectPartConditions, collectNode?, mem_collect_partsOf operand,
      mem_collect_nodesOfBranches branches]

theorem Group.mem_collect_node (group : Group) :
    token ∈ group.node.collect ↔ token ∈ group.collect := by
  match group with
  | ⟨opening, closing, _, _, body, elements, items⟩ =>
    simp [Group.node, Node.collect, Group.collect, collectPartConditions, collectNodes,
      mem_collect_partsOf elements, mem_collect_partsOfRuns items, mem_collect_nodeOfBody body]

theorem mem_collect_partsOf (elements : List Element) :
    token ∈ collectParts (partsOf elements) ↔ token ∈ collectRun elements := by
  match elements with
  | [] => rfl
  | element :: rest =>
    simp [partsOf, collectParts, collectRun, element.mem_collect_part, mem_collect_partsOf rest]

theorem mem_collect_partsOfRuns (runs : List (List Element)) :
    token ∈ collectPartRuns (partsOfRuns runs) ↔ token ∈ collectRuns runs := by
  match runs with
  | [] => rfl
  | run :: rest =>
    simp [partsOfRuns, collectPartRuns, collectRuns, mem_collect_partsOf run,
      mem_collect_partsOfRuns rest]

theorem mem_collect_nodeOfBody (body : Option Statement) :
    token ∈ collectNode? (nodeOfBody body) ↔ token ∈ collectBody body := by
  match body with
  | none => rfl
  | some statement => exact statement.mem_collect_node

theorem mem_collect_nodesOfBranches (branches : List (Branch Element)) :
    token ∈ collectNodes (nodesOfBranches branches) ↔ token ∈ collectBranches branches := by
  match branches with
  | [] => rfl
  | ⟨keyword, elements⟩ :: rest =>
    simp [nodesOfBranches, collectNodes, Node.collect, collectBranches, collectPartRuns,
      collectPartConditions, collectNode?, mem_collect_partsOf elements,
      mem_collect_nodesOfBranches rest]

theorem mem_collect_partsOfConditions (conditions : List (Condition Element)) :
    token ∈ collectPartConditions (partsOfConditions conditions) ↔
      token ∈ collectConditions conditions := by
  match conditions with
  | [] => rfl
  | ⟨connector, elements⟩ :: rest =>
    simp [partsOfConditions, collectPartConditions, collectConditions,
      mem_collect_partsOf elements, mem_collect_partsOfConditions rest]

theorem mem_collect_nodesOfJoins (joins : List (Join Element)) :
    token ∈ collectNodes (nodesOfJoins joins) ↔ token ∈ collectJoins joins := by
  match joins with
  | [] => rfl
  | ⟨keyword, source, conditions, columns⟩ :: rest =>
    simp only [nodesOfJoins, collectNodes, Node.collect, collectJoins, collectPartRuns,
      collectNode?, List.mem_append, List.mem_cons, List.append_nil, List.nil_append,
      Option.toList_some, Option.toList_none, List.cons_append, mem_collect_partsOf source,
      mem_collect_partsOf columns, mem_collect_partsOfConditions conditions,
      mem_collect_nodesOfJoins rest]
    grind

theorem mem_collect_nodeOfClause (keyword : Option Token) (body : ClauseBody Element) :
    token ∈ (nodeOfClause keyword body).collect ↔
      token ∈ keyword.toList ∨ token ∈ collectClause body := by
  match body with
  | .run elements =>
    simp [nodeOfClause, Node.collect, collectClause, collectPartRuns, collectPartConditions,
      collectNodes, collectNode?, mem_collect_partsOf elements]
  | .projection modifiers ⟨items, commas⟩ =>
    simp [nodeOfClause, Node.collect, collectClause, collectPartConditions, collectNodes,
      collectNode?, mem_collect_partsOf modifiers, mem_collect_partsOfRuns items]
  | .sources ⟨items, commas⟩ joins =>
    simp [nodeOfClause, Node.collect, collectClause, collectParts, collectPartConditions,
      collectNode?, mem_collect_partsOfRuns items, mem_collect_nodesOfJoins joins]
  | .predicate conditions =>
    simp [nodeOfClause, Node.collect, collectClause, collectParts, collectPartRuns, collectNodes,
      collectNode?, mem_collect_partsOfConditions conditions]
  | .list ⟨items, commas⟩ =>
    simp [nodeOfClause, Node.collect, collectClause, collectParts, collectPartConditions,
      collectNodes, collectNode?, mem_collect_partsOfRuns items]

theorem mem_collect_nodesOfClauses (clauses : List (Clause Element)) :
    token ∈ collectNodes (nodesOfClauses clauses) ↔ token ∈ collectClauses clauses := by
  match clauses with
  | [] => rfl
  | ⟨keyword, body⟩ :: rest =>
    simp [nodesOfClauses, collectNodes, collectClauses, mem_collect_nodeOfClause keyword body,
      mem_collect_nodesOfClauses rest, or_assoc]

theorem Statement.mem_collect_node (statement : Statement) :
    token ∈ statement.node.collect ↔ token ∈ statement.collect := by
  match statement with
  | ⟨leading, form, trailing⟩ =>
    rw [Statement.node, form.node.mem_collect_commented leading trailing form.node_bare,
      form.mem_collect_node, Statement.collect]
    simp

theorem mem_collect_nodesOfColumns (columns : Option Group) :
    token ∈ collectNodes (nodesOfColumns columns) ↔ token ∈ collectColumns columns := by
  match columns with
  | none => rfl
  | some group =>
    simp [nodesOfColumns, collectNodes, collectColumns, group.mem_collect_node]

theorem mem_collect_nodesOfTail (tail : Option (Branch Element)) :
    token ∈ collectNodes (nodesOfTail tail) ↔ token ∈ collectTail tail := by
  match tail with
  | none => rfl
  | some ⟨keyword, elements⟩ =>
    simp [nodesOfTail, collectNodes, Node.collect, collectTail, collectPartRuns,
      collectPartConditions, collectNode?, mem_collect_partsOf elements]

theorem Form.mem_collect_node (form : Form) :
    token ∈ form.node.collect ↔ token ∈ form.collect := by
  match form with
  | .query clauses =>
    simp [Form.node, Node.collect, Form.collect, collectParts, collectPartRuns,
      collectPartConditions, collectNode?, mem_collect_nodesOfClauses clauses]
  | .insert keyword target columns source =>
    simp [Form.node, Node.collect, Form.collect, collectPartRuns, collectPartConditions,
      collectNodes_append, mem_collect_partsOf target, mem_collect_nodesOfColumns columns,
      source.mem_collect_nodes]
  | .update keyword target clauses =>
    simp [Form.node, Node.collect, Form.collect, collectPartRuns, collectPartConditions,
      collectNode?, mem_collect_partsOf target, mem_collect_nodesOfClauses clauses]
  | .delete keyword target clauses =>
    simp [Form.node, Node.collect, Form.collect, collectPartRuns, collectPartConditions,
      collectNode?, mem_collect_partsOf target, mem_collect_nodesOfClauses clauses]
  | .merge keyword target ⟨usingWord, source, conditions⟩ branches =>
    simp [Form.node, Node.collect, Form.collect, collectParts, collectPartRuns,
      collectPartConditions, collectNodes, collectNode?, mem_collect_partsOf target,
      mem_collect_partsOf source, mem_collect_partsOfConditions conditions,
      mem_collect_nodesOfMerge branches]
  | .withQueries keyword modifiers definitions commas body =>
    simp only [Form.node, Node.collect, Form.collect, collectPartRuns, collectPartConditions,
      collectNode?, List.mem_append, List.mem_cons, List.append_nil, List.nil_append,
      Option.toList_some, Option.toList_none, List.cons_append, mem_collect_partsOf modifiers,
      mem_collect_nodesOfDefinitions definitions, body.mem_collect_node]
    grind
  | .create keyword object columns rest =>
    simp [Form.node, Node.collect, Form.collect, collectPartRuns, collectPartConditions,
      collectNode?, collectNodes_append, mem_collect_partsOf object,
      mem_collect_nodesOfColumns columns, rest.mem_collect_nodes]
  | .grant keyword privileges clauses =>
    simp [Form.node, Node.collect, Form.collect, collectPartRuns, collectPartConditions,
      collectNode?, mem_collect_partsOf privileges, mem_collect_nodesOfBranches clauses]
  | .raw elements =>
    simp [Form.node, Node.collect, Form.collect, collectPartRuns, collectPartConditions,
      collectNodes, collectNode?, mem_collect_partsOf elements]

theorem InsertSource.mem_collect_nodes (source : InsertSource) :
    token ∈ collectNodes source.nodes ∨ token ∈ collectNode? source.body? ↔
      token ∈ source.collect := by
  match source with
  | .nothing => simp [InsertSource.nodes, InsertSource.body?, collectNodes, collectNode?,
      InsertSource.collect]
  | .values keyword ⟨items, commas⟩ tail =>
    simp [InsertSource.nodes, InsertSource.body?, collectNodes, collectNode?, Node.collect,
      InsertSource.collect, collectParts, collectPartConditions, mem_collect_partsOfRuns items,
      mem_collect_nodesOfTail tail]
  | .statement body =>
    simp [InsertSource.nodes, InsertSource.body?, collectNodes, collectNode?,
      InsertSource.collect, body.mem_collect_node]

theorem CreateRest.mem_collect_nodes (rest : CreateRest) :
    token ∈ collectNodes rest.nodes ↔ token ∈ rest.collect := by
  match rest with
  | .nothing => rfl
  | .query keyword body =>
    simp [CreateRest.nodes, collectNodes, Node.collect, CreateRest.collect, collectParts,
      collectPartRuns, collectPartConditions, collectNode?, body.mem_collect_node]
  | .run elements =>
    simp [CreateRest.nodes, collectNodes, Node.collect, CreateRest.collect, collectPartRuns,
      collectPartConditions, collectNode?, mem_collect_partsOf elements]

theorem mem_collect_nodesOfMerge (branches : List MergeBranch) :
    token ∈ collectNodes (nodesOfMerge branches) ↔ token ∈ collectMerge branches := by
  match branches with
  | [] => rfl
  | ⟨keyword, head, action⟩ :: rest =>
    simp [nodesOfMerge, collectNodes, Node.collect, collectMerge, collectPartRuns,
      collectPartConditions, collectNode?, mem_collect_partsOf head, action.mem_collect_node,
      mem_collect_nodesOfMerge rest]

theorem mem_collect_nodesOfDefinitions (definitions : List Definition) :
    token ∈ collectNodes (nodesOfDefinitions definitions) ↔
      token ∈ collectDefinitions definitions := by
  match definitions with
  | [] => rfl
  | ⟨head, keyword, modifiers, query⟩ :: rest =>
    have words : token ∈ collectPartRuns (if modifiers.isEmpty then [] else [partsOf modifiers]) ↔
        token ∈ collectRun modifiers := by
      rw [← mem_collect_partsOf modifiers]
      cases modifiers <;> simp [collectPartRuns, partsOf, collectParts]
    simp only [nodesOfDefinitions, collectNodes, Node.collect, collectDefinitions,
      collectPartConditions, collectNode?, List.mem_append, List.mem_cons, List.append_nil,
      List.nil_append, Option.toList_some, Option.toList_none, words,
      mem_collect_partsOf head, query.mem_collect_node, mem_collect_nodesOfDefinitions rest]
    grind

end

end Collecting

end SqlLayout.Tree
