import SqlLayout.Tree.Basic

/-! How deep a tree is nested. Every group, CASE expression and statement is higher
than whatever it holds. -/
namespace SqlLayout.Tree

mutual

def Element.height : Element → Nat
  | .token _ => 0
  | .group group => group.height
  | .case ⟨_, _, _, operand, branches⟩ => max (heightRun operand) (heightBranches branches) + 1

def Group.height : Group → Nat
  | ⟨_, _, _, _, body, elements, items⟩ =>
    max (heightBody body) (max (heightRun elements) (heightRuns items)) + 1

def heightRun : List Element → Nat
  | [] => 0
  | element :: rest => max element.height (heightRun rest)

def heightRuns : List (List Element) → Nat
  | [] => 0
  | run :: rest => max (heightRun run) (heightRuns rest)

def heightBody : Option Statement → Nat
  | none => 0
  | some statement => statement.height

def heightBranches : List (Branch Element) → Nat
  | [] => 0
  | ⟨_, elements⟩ :: rest => max (heightRun elements) (heightBranches rest)

def heightConditions : List (Condition Element) → Nat
  | [] => 0
  | ⟨_, elements⟩ :: rest => max (heightRun elements) (heightConditions rest)

def heightJoins : List (Join Element) → Nat
  | [] => 0
  | ⟨_, source, conditions, columns⟩ :: rest =>
    max (max (heightRun source) (max (heightConditions conditions) (heightRun columns)))
      (heightJoins rest)

def heightClause : ClauseBody Element → Nat
  | .run elements => heightRun elements
  | .projection modifiers ⟨items, _⟩ => max (heightRun modifiers) (heightRuns items)
  | .sources ⟨items, _⟩ joins => max (heightRuns items) (heightJoins joins)
  | .predicate conditions => heightConditions conditions
  | .list ⟨items, _⟩ => heightRuns items

def heightClauses : List (Clause Element) → Nat
  | [] => 0
  | ⟨_, body⟩ :: rest => max (heightClause body) (heightClauses rest)

@[simp] def Statement.height : Statement → Nat
  | ⟨_, form, _⟩ => form.height + 1

def heightColumns : Option Group → Nat
  | none => 0
  | some group => group.height

def heightTail : Option (Branch Element) → Nat
  | none => 0
  | some ⟨_, elements⟩ => heightRun elements

@[simp] def Form.height : Form → Nat
  | .query clauses => heightClauses clauses
  | .insert _ target columns source =>
    max (heightRun target) (max (heightColumns columns) source.height)
  | .update _ target clauses => max (heightRun target) (heightClauses clauses)
  | .delete _ target clauses => max (heightRun target) (heightClauses clauses)
  | .merge _ target ⟨_, source, conditions⟩ branches =>
    max (heightRun target)
      (max (heightRun source) (max (heightConditions conditions) (heightMerge branches)))
  | .withQueries _ modifiers definitions _ body =>
    max (heightRun modifiers) (max (heightDefinitions definitions) body.height)
  | .create _ object columns rest =>
    max (heightRun object) (max (heightColumns columns) rest.height)
  | .grant _ privileges clauses => max (heightRun privileges) (heightBranches clauses)
  | .raw elements => heightRun elements

@[simp] def InsertSource.height : InsertSource → Nat
  | .nothing => 0
  | .values _ ⟨items, _⟩ tail => max (heightRuns items) (heightTail tail)
  | .statement body => body.height

@[simp] def CreateRest.height : CreateRest → Nat
  | .nothing => 0
  | .query _ body => body.height
  | .run elements => heightRun elements

def heightMerge : List MergeBranch → Nat
  | [] => 0
  | ⟨_, head, action⟩ :: rest => max (max (heightRun head) action.height) (heightMerge rest)

def heightDefinitions : List Definition → Nat
  | [] => 0
  | ⟨head, _, modifiers, query⟩ :: rest =>
    max (max (heightRun head) (max (heightRun modifiers) query.height)) (heightDefinitions rest)

end

theorem height_le_of_mem (element : Element) (run : List Element) (member : element ∈ run) :
    element.height ≤ heightRun run := by
  induction run with
  | nil => simp at member
  | cons first rest ih =>
    rw [heightRun]
    rcases List.mem_cons.1 member with rfl | later
    · omega
    · have bound := ih later
      omega

theorem heightRun_le_of_subset (part whole : List Element) (subset : part ⊆ whole) :
    heightRun part ≤ heightRun whole := by
  induction part with
  | nil => simp [heightRun]
  | cons first rest ih =>
    have head := height_le_of_mem first whole (subset List.mem_cons_self)
    have tail := ih fun _ member => subset (List.mem_cons_of_mem first member)
    rw [heightRun]
    omega

theorem height_le_total {α : Type} (height : α → Nat) (total : List α → Nat)
    (cons : ∀ entry rest, total (entry :: rest) = max (height entry) (total rest))
    (entries : List α) (entry : α) (member : entry ∈ entries) : height entry ≤ total entries := by
  induction entries with
  | nil => simp at member
  | cons first rest ih =>
    rw [cons]
    rcases List.mem_cons.1 member with rfl | later
    · omega
    · have bound := ih later
      omega

section Members

attribute [local simp] heightRuns heightBranches heightConditions heightJoins heightClauses
  heightMerge heightDefinitions

theorem heightRun_le_runs {runs : List (List Element)} {run : List Element}
    (member : run ∈ runs) : heightRun run ≤ heightRuns runs :=
  height_le_total heightRun heightRuns (fun _ _ => by simp) runs run member

theorem heightRun_le_branches {branches : List (Branch Element)} {branch : Branch Element}
    (member : branch ∈ branches) : heightRun branch.elements ≤ heightBranches branches :=
  height_le_total (fun branch : Branch Element => heightRun branch.elements) heightBranches
    (fun _ _ => by simp) branches branch member

theorem heightRun_le_conditions {conditions : List (Condition Element)}
    {condition : Condition Element} (member : condition ∈ conditions) :
    heightRun condition.elements ≤ heightConditions conditions :=
  height_le_total (fun condition : Condition Element => heightRun condition.elements)
    heightConditions (fun _ _ => by simp) conditions condition member

theorem heightJoins_le {joins : List (Join Element)} {join : Join Element}
    (member : join ∈ joins) : heightJoins [join] ≤ heightJoins joins :=
  height_le_total (fun join : Join Element => heightJoins [join]) heightJoins
    (fun _ _ => by simp) joins join member

theorem heightClause_le {clauses : List (Clause Element)} {clause : Clause Element}
    (member : clause ∈ clauses) : heightClause clause.body ≤ heightClauses clauses :=
  height_le_total (fun clause : Clause Element => heightClause clause.body) heightClauses
    (fun _ _ => by simp) clauses clause member

theorem heightMerge_le {branches : List MergeBranch} {branch : MergeBranch}
    (member : branch ∈ branches) :
    max (heightRun branch.head) branch.action.height ≤ heightMerge branches :=
  height_le_total (fun branch : MergeBranch => max (heightRun branch.head) branch.action.height)
    heightMerge (fun branch _ => by cases branch; simp) branches branch member

theorem heightDefinitions_le {definitions : List Definition} {definition : Definition}
    (member : definition ∈ definitions) :
    heightDefinitions [definition] ≤ heightDefinitions definitions :=
  height_le_total (fun definition : Definition => heightDefinitions [definition])
    heightDefinitions (fun definition _ => by cases definition; simp)
    definitions definition member

end Members

end SqlLayout.Tree
