import SqlLayout.Tree.Basic

/-! The tokens under a tree, in the order of the text. A group may hold a run and
its items at once, and a cut moves commas and comments away from their places, so
the tokens are collected first, then ordered by where they start, each once. -/
namespace SqlLayout.Tree

mutual

def Element.collect : Element → List Token
  | .token token => [token]
  | .group group => group.collect
  | .case ⟨keyword, closing, _, operand, branches⟩ =>
    keyword :: collectRun operand ++ collectBranches branches ++ [closing]

def Group.collect : Group → List Token
  | ⟨opening, closing, _, _, body, elements, items⟩ =>
    opening :: collectRun elements ++ collectRuns items ++ collectBody body ++ [closing]

def collectRun : List Element → List Token
  | [] => []
  | element :: rest => element.collect ++ collectRun rest

def collectRuns : List (List Element) → List Token
  | [] => []
  | run :: rest => collectRun run ++ collectRuns rest

def collectBody : Option Statement → List Token
  | none => []
  | some statement => statement.collect

def collectBranches : List (Branch Element) → List Token
  | [] => []
  | ⟨keyword, elements⟩ :: rest => keyword :: collectRun elements ++ collectBranches rest

def collectConditions : List (Condition Element) → List Token
  | [] => []
  | ⟨connector, elements⟩ :: rest =>
    connector.toList ++ collectRun elements ++ collectConditions rest

def collectJoins : List (Join Element) → List Token
  | [] => []
  | ⟨keyword, source, conditions, columns⟩ :: rest =>
    keyword :: collectRun source ++ collectConditions conditions ++ collectRun columns ++
      collectJoins rest

def collectClause : ClauseBody Element → List Token
  | .run elements => collectRun elements
  | .projection modifiers ⟨items, commas⟩ => collectRun modifiers ++ collectRuns items ++ commas
  | .sources ⟨items, commas⟩ joins => collectRuns items ++ commas ++ collectJoins joins
  | .predicate conditions => collectConditions conditions
  | .list ⟨items, commas⟩ => collectRuns items ++ commas

def collectClauses : List (Clause Element) → List Token
  | [] => []
  | ⟨keyword, body⟩ :: rest => keyword.toList ++ collectClause body ++ collectClauses rest

@[simp] def Statement.collect : Statement → List Token
  | ⟨leading, form, trailing⟩ => leading ++ form.collect ++ trailing

def collectColumns : Option Group → List Token
  | none => []
  | some group => group.collect

def collectTail : Option (Branch Element) → List Token
  | none => []
  | some ⟨keyword, elements⟩ => keyword :: collectRun elements

@[simp] def Form.collect : Form → List Token
  | .query clauses => collectClauses clauses
  | .insert keyword target columns source =>
    keyword :: collectRun target ++ collectColumns columns ++ source.collect
  | .update keyword target clauses => keyword :: collectRun target ++ collectClauses clauses
  | .delete keyword target clauses => keyword :: collectRun target ++ collectClauses clauses
  | .merge keyword target ⟨usingWord, source, conditions⟩ branches =>
    keyword :: collectRun target ++ usingWord :: collectRun source ++
      collectConditions conditions ++ collectMerge branches
  | .withQueries keyword modifiers definitions commas body =>
    keyword :: collectRun modifiers ++ collectDefinitions definitions ++ commas ++ body.collect
  | .create keyword object columns rest =>
    keyword :: collectRun object ++ collectColumns columns ++ rest.collect
  | .grant keyword privileges clauses => keyword :: collectRun privileges ++ collectBranches clauses
  | .raw elements => collectRun elements

@[simp] def InsertSource.collect : InsertSource → List Token
  | .nothing => []
  | .values keyword ⟨items, commas⟩ tail =>
    keyword :: collectRuns items ++ commas ++ collectTail tail
  | .statement body => body.collect

@[simp] def CreateRest.collect : CreateRest → List Token
  | .nothing => []
  | .query keyword body => keyword :: body.collect
  | .run elements => collectRun elements

def collectMerge : List MergeBranch → List Token
  | [] => []
  | ⟨keyword, head, action⟩ :: rest =>
    keyword :: collectRun head ++ action.collect ++ collectMerge rest

def collectDefinitions : List Definition → List Token
  | [] => []
  | ⟨head, keyword, modifiers, query⟩ :: rest =>
    collectRun head ++ keyword :: collectRun modifiers ++ query.collect ++ collectDefinitions rest

end

/-- Of neighbours that start at the same place the first is kept. -/
def dropRepeats : List Token → List Token
  | first :: second :: rest =>
    if first.start = second.start then dropRepeats (first :: rest)
    else first :: dropRepeats (second :: rest)
  | tokens => tokens

def inTextOrder (tokens : List Token) : List Token :=
  dropRepeats (tokens.mergeSort fun first second => decide (first.start ≤ second.start))

def Element.tokens (element : Element) : List Token :=
  inTextOrder element.collect

def Statement.tokens (statement : Statement) : List Token :=
  inTextOrder statement.collect

@[simp] theorem collectRun_append (first second : List Element) :
    collectRun (first ++ second) = collectRun first ++ collectRun second := by
  induction first with
  | nil => simp [collectRun]
  | cons element rest ih => simp [collectRun, ih]

theorem collect_group (group : Group) :
    group.collect = group.opening :: collectRun group.elements ++ collectRuns group.items ++
      collectBody group.body ++ [group.closing] := by
  cases group
  rw [Group.collect]

theorem collectRun_cons (element : Element) (rest : List Element) :
    collectRun (element :: rest) = element.collect ++ collectRun rest := by
  rw [collectRun]

theorem collectRun_subset (part whole : List Element) (subset : part ⊆ whole) :
    collectRun part ⊆ collectRun whole := by
  have alone (element : Element) (member : element ∈ whole) :
      element.collect ⊆ collectRun whole := by
    obtain ⟨front, back, rfl⟩ := List.append_of_mem member
    rw [collectRun_append, collectRun]
    exact List.subset_append_of_subset_right _ (List.subset_append_left _ _)
  induction part with
  | nil => simp [collectRun]
  | cons first rest ih =>
    rw [collectRun]
    exact List.append_subset.2 ⟨alone first (subset (by simp)),
      ih fun _ member => subset (List.mem_cons_of_mem first member)⟩

theorem collect_subset_total {α : Type} (part : α → List Token) (total : List α → List Token)
    (cons : ∀ first rest, part first ⊆ total (first :: rest) ∧ total rest ⊆ total (first :: rest))
    (entries : List α) (entry : α) (member : entry ∈ entries) : part entry ⊆ total entries := by
  induction entries with
  | nil => simp at member
  | cons first rest ih =>
    rcases List.mem_cons.1 member with rfl | later
    · exact (cons entry rest).1
    · exact List.Subset.trans (ih later) (cons first rest).2

section Members

attribute [local grind] collectRuns collectBranches collectConditions collectJoins collectClauses
  collectMerge collectDefinitions

theorem collectRun_subset_runs {runs : List (List Element)} {run : List Element}
    (member : run ∈ runs) : collectRun run ⊆ collectRuns runs :=
  collect_subset_total collectRun collectRuns (fun _ _ => by grind) runs run member

theorem collectRun_subset_branches {branches : List (Branch Element)} {branch : Branch Element}
    (member : branch ∈ branches) : collectRun branch.elements ⊆ collectBranches branches :=
  collect_subset_total (fun branch : Branch Element => collectRun branch.elements) collectBranches
    (fun branch _ => by cases branch; grind) branches branch member

theorem collectRun_subset_conditions {conditions : List (Condition Element)}
    {condition : Condition Element} (member : condition ∈ conditions) :
    collectRun condition.elements ⊆ collectConditions conditions :=
  collect_subset_total (fun condition : Condition Element => collectRun condition.elements)
    collectConditions (fun condition _ => by cases condition; grind)
    conditions condition member

theorem collectJoins_subset {joins : List (Join Element)} {join : Join Element}
    (member : join ∈ joins) : collectJoins [join] ⊆ collectJoins joins :=
  collect_subset_total (fun join : Join Element => collectJoins [join]) collectJoins
    (fun join _ => by cases join; grind) joins join member

theorem collectClause_subset {clauses : List (Clause Element)} {clause : Clause Element}
    (member : clause ∈ clauses) : collectClause clause.body ⊆ collectClauses clauses :=
  collect_subset_total (fun clause : Clause Element => collectClause clause.body) collectClauses
    (fun clause _ => by cases clause; grind) clauses clause member

theorem collectMerge_subset {branches : List MergeBranch} {branch : MergeBranch}
    (member : branch ∈ branches) :
    collectRun branch.head ++ branch.action.collect ⊆ collectMerge branches :=
  collect_subset_total
    (fun branch : MergeBranch => collectRun branch.head ++ branch.action.collect) collectMerge
    (fun branch _ => by cases branch; grind) branches branch member

theorem collectDefinitions_subset {definitions : List Definition} {definition : Definition}
    (member : definition ∈ definitions) :
    collectDefinitions [definition] ⊆ collectDefinitions definitions :=
  collect_subset_total (fun definition : Definition => collectDefinitions [definition])
    collectDefinitions (fun definition _ => by cases definition; grind)
    definitions definition member

end Members

@[simp] theorem dropRepeats_nil : dropRepeats [] = [] := by
  simp [dropRepeats]

theorem dropRepeats_sublist (tokens : List Token) : (dropRepeats tokens).Sublist tokens := by
  fun_induction dropRepeats tokens with
  | case1 first second rest same ih =>
    exact ih.trans (List.Sublist.cons_cons first (List.sublist_cons_self second rest))
  | case2 first second rest differ ih => exact ih.cons_cons first
  | case3 tokens => exact List.Sublist.refl tokens

theorem mem_of_mem_inTextOrder (tokens : List Token) (token : Token)
    (member : token ∈ inTextOrder tokens) : token ∈ tokens :=
  List.mem_mergeSort.1 ((dropRepeats_sublist _).mem member)

end SqlLayout.Tree
