import SqlLayout.Layout.Sheet
import SqlLayout.Tree.Clauses

/-! What a layout shows of a tree. The trace of a tree lists its tokens in the order in
which they are to be drawn, with commas put between the entries of lists, and beside them
every form that occurs anywhere in the tree. Parts of a tree that no layout reads still
contribute their forms. -/
namespace SqlLayout.Tree

open SqlLayout.Layout

structure Mark where
  token : Token
  kind : Token.Kind
  deriving DecidableEq, Repr

def Mark.ofToken (token : Token) : Mark :=
  ⟨token, token.kind⟩

def commaMark : Mark :=
  .ofToken commaToken

structure Trace where
  marks : List Mark
  forms : List Form

namespace Trace

def empty : Trace :=
  ⟨[], []⟩

def append (first second : Trace) : Trace :=
  ⟨first.marks ++ second.marks, first.forms ++ second.forms⟩

instance : Append Trace :=
  ⟨append⟩

def ofToken (token : Token) : Trace :=
  ⟨[.ofToken token], []⟩

def ofTokens (tokens : List Token) : Trace :=
  ⟨tokens.map .ofToken, []⟩

def comments (tokens : List Token) : Trace :=
  ⟨tokens.map fun token => ⟨token, .comment⟩, []⟩

def opening (token : Token) : Trace :=
  ⟨[⟨token, .parenOpen⟩], []⟩

def closing (token : Token) : Trace :=
  ⟨[⟨token, .parenClose⟩], []⟩

def ofForm (form : Form) : Trace :=
  ⟨[], [form]⟩

/-- The trace of a part that is not drawn. -/
def hidden (trace : Trace) : Trace :=
  ⟨[], trace.forms⟩

@[simp] theorem marks_empty : empty.marks = [] := rfl

@[simp] theorem forms_empty : empty.forms = [] := rfl

@[simp] theorem marks_append (first second : Trace) :
    (first ++ second).marks = first.marks ++ second.marks := rfl

@[simp] theorem forms_append (first second : Trace) :
    (first ++ second).forms = first.forms ++ second.forms := rfl

@[simp] theorem marks_ofToken (token : Token) : (ofToken token).marks = [.ofToken token] := rfl

@[simp] theorem forms_ofToken (token : Token) : (ofToken token).forms = [] := rfl

@[simp] theorem marks_ofTokens (tokens : List Token) :
    (ofTokens tokens).marks = tokens.map .ofToken := rfl

@[simp] theorem forms_ofTokens (tokens : List Token) : (ofTokens tokens).forms = [] := rfl

@[simp] theorem marks_comments (tokens : List Token) :
    (comments tokens).marks = tokens.map fun token => ⟨token, .comment⟩ := rfl

@[simp] theorem forms_comments (tokens : List Token) : (comments tokens).forms = [] := rfl

@[simp] theorem marks_opening (token : Token) :
    (opening token).marks = [⟨token, .parenOpen⟩] := rfl

@[simp] theorem forms_opening (token : Token) : (opening token).forms = [] := rfl

@[simp] theorem marks_closing (token : Token) :
    (closing token).marks = [⟨token, .parenClose⟩] := rfl

@[simp] theorem forms_closing (token : Token) : (closing token).forms = [] := rfl

@[simp] theorem marks_ofForm (form : Form) : (ofForm form).marks = [] := rfl

@[simp] theorem forms_ofForm (form : Form) : (ofForm form).forms = [form] := rfl

@[simp] theorem marks_hidden (trace : Trace) : trace.hidden.marks = [] := rfl

@[simp] theorem forms_hidden (trace : Trace) : trace.hidden.forms = trace.forms := rfl

@[ext] theorem ext {first second : Trace} (marks : first.marks = second.marks)
    (forms : first.forms = second.forms) : first = second := by
  cases first
  cases second
  simp_all

@[simp] theorem append_empty (trace : Trace) : trace ++ empty = trace := by
  ext1 <;> simp

@[simp] theorem empty_append (trace : Trace) : empty ++ trace = trace := by
  ext1 <;> simp

theorem append_assoc (first second third : Trace) :
    first ++ second ++ third = first ++ (second ++ third) := by
  ext1 <;> simp

end Trace

/-- Words whose clause is drawn from a cut run only. -/
def dropsRun (word : String) : Bool :=
  word = "FROM" || word = "VALUES" || predicateClauses.contains word ||
    orderingClauses.contains word || word = "SET"

def Form.isAction : Form → Bool
  | .update .. | .insert .. | .raw .. => true
  | _ => false

mutual

def Element.trace : Element → Trace
  | .token token => .ofToken token
  | .group group => group.trace
  | .case ⟨keyword, closing, _, operand, branches⟩ =>
    .ofToken keyword ++ traceRun operand ++ traceBranches branches ++ .ofToken closing

/-- A group in a run: its statement if it was opened for one, its elements otherwise. -/
def Group.trace : Group → Trace
  | ⟨opening, closing, _, role, body, elements, _⟩ =>
    .opening opening ++
      (if role = .subquery ∧ body.isSome then traceBody body else traceRun elements) ++
      .closing closing

def Group.traceTuple : Group → Trace
  | ⟨opening, closing, _, _, _, _, items⟩ =>
    .opening opening ++ traceItems items ++ .closing closing

def traceRun : List Element → Trace
  | [] => .empty
  | element :: rest => element.trace ++ traceRun rest

def traceItems : List (List Element) → Trace
  | [] => .empty
  | item :: rest => traceRun item ++ traceMore rest

def traceMore : List (List Element) → Trace
  | [] => .empty
  | item :: rest => .ofToken commaToken ++ traceRun item ++ traceMore rest

def traceBody : Option Statement → Trace
  | none => .empty
  | some statement => statement.trace

def traceBranches : List (Branch Element) → Trace
  | [] => .empty
  | ⟨keyword, elements⟩ :: rest => .ofToken keyword ++ traceRun elements ++ traceBranches rest

def traceConditions : List (Condition Element) → Trace
  | [] => .empty
  | ⟨connector, elements⟩ :: rest =>
    .ofTokens connector.toList ++ traceRun elements ++ traceConditions rest

def traceJoins : List (Join Element) → Trace
  | [] => .empty
  | ⟨keyword, source, conditions, columns⟩ :: rest =>
    .ofToken keyword ++ traceRun source ++ traceConditions conditions ++ traceRun columns ++
      traceJoins rest

def traceClause (keyword : Option Token) : ClauseBody Element → Trace
  | .run elements =>
    if keyword.any (dropsRun ·.contents) then (traceRun elements).hidden else traceRun elements
  | .projection modifiers ⟨items, _⟩ =>
    if keyword.isSome then traceRun modifiers ++ traceItems items
    else (traceRun modifiers ++ traceItems items).hidden
  | .sources ⟨items, _⟩ joins =>
    if keyword.isSome then traceItems items ++ traceJoins joins
    else (traceItems items ++ traceJoins joins).hidden
  | .predicate conditions =>
    if keyword.isSome then traceConditions conditions else (traceConditions conditions).hidden
  | .list ⟨items, _⟩ =>
    if keyword.isSome then traceItems items else (traceItems items).hidden

def traceClauses : List (Clause Element) → Trace
  | [] => .empty
  | ⟨keyword, body⟩ :: rest =>
    .ofTokens keyword.toList ++ traceClause keyword body ++ traceClauses rest

@[simp] def Statement.trace : Statement → Trace
  | ⟨leading, form, trailing⟩ => .comments leading ++ form.trace ++ .comments trailing

def traceColumns : Option Group → Trace
  | none => .empty
  | some group => group.traceTuple

def traceTail : Option (Branch Element) → Trace
  | none => .empty
  | some ⟨keyword, elements⟩ =>
    .ofToken keyword ++
      (if dropsRun keyword.contents then (traceRun elements).hidden else traceRun elements)

/-- A row of values: a single group as a tuple, unless it holds a statement. -/
def traceRow : List Element → Trace
  | [] => .empty
  | [.group group] => if group.isSubquery then group.trace else group.traceTuple
  | element :: rest => element.trace ++ traceRun rest

def traceRows : List (List Element) → Trace
  | [] => .empty
  | row :: rest => traceRow row ++ traceMoreRows rest

def traceMoreRows : List (List Element) → Trace
  | [] => .empty
  | row :: rest => .ofToken commaToken ++ traceRow row ++ traceMoreRows rest

@[simp] def Form.trace : Form → Trace
  | .query clauses => .ofForm (.query clauses) ++ traceClauses clauses
  | .insert keyword target columns source =>
    .ofForm (.insert keyword target columns source) ++ .ofToken keyword ++ traceRun target ++
      traceColumns columns ++ source.trace
  | .update keyword target clauses =>
    .ofForm (.update keyword target clauses) ++ .ofToken keyword ++ traceRun target ++
      traceClauses clauses
  | .delete keyword target clauses =>
    .ofForm (.delete keyword target clauses) ++ .ofToken keyword ++ traceRun target ++
      traceClauses clauses
  | .merge keyword target ⟨usingWord, source, conditions⟩ branches =>
    .ofForm (.merge keyword target ⟨usingWord, source, conditions⟩ branches) ++
      .ofToken keyword ++ traceRun target ++ .ofToken usingWord ++ traceRun source ++
      traceConditions conditions ++ traceMerge branches
  | .withQueries keyword modifiers definitions commas body =>
    .ofForm (.withQueries keyword modifiers definitions commas body) ++ .ofToken keyword ++
      traceRun modifiers ++ traceDefinitions definitions ++ body.trace
  | .create keyword object columns rest =>
    .ofForm (.create keyword object columns rest) ++ .ofToken keyword ++ traceRun object ++
      traceColumns columns ++ rest.trace
  | .grant keyword privileges clauses =>
    .ofForm (.grant keyword privileges clauses) ++ .ofToken keyword ++ traceRun privileges ++
      traceBranches clauses
  | .raw elements => .ofForm (.raw elements) ++ traceRun elements

@[simp] def InsertSource.trace : InsertSource → Trace
  | .nothing => .empty
  | .values keyword ⟨items, _⟩ tail => .ofToken keyword ++ traceRows items ++ traceTail tail
  | .statement body => body.trace

@[simp] def CreateRest.trace : CreateRest → Trace
  | .nothing => .empty
  | .query keyword body => .ofToken keyword ++ body.trace
  | .run elements => traceRun elements

def traceMerge : List MergeBranch → Trace
  | [] => .empty
  | ⟨keyword, head, action⟩ :: rest =>
    .ofToken keyword ++ traceRun head ++
      (if action.isAction then action.trace else action.trace.hidden) ++ traceMerge rest

/-- The elements of the head of a named query, where tuples are drawn as lists. -/
def traceHead : List Element → Trace
  | [] => .empty
  | .token token :: rest => .ofToken token ++ traceHead rest
  | .group group :: rest =>
    (if group.role = .tuple then group.traceTuple else group.trace) ++ traceHead rest
  | .case ⟨keyword, closing, _, operand, branches⟩ :: rest =>
    .ofToken keyword ++ traceRun operand ++ traceBranches branches ++ .ofToken closing ++
      traceHead rest

def Definition.trace : Definition → Trace
  | ⟨head, keyword, modifiers, query⟩ =>
    traceHead head ++ .ofToken keyword ++ traceRun modifiers ++ query.trace

def traceDefinitions : List Definition → Trace
  | [] => .empty
  | definition :: rest => definition.trace ++ traceMoreDefinitions rest

def traceMoreDefinitions : List Definition → Trace
  | [] => .empty
  | definition :: rest =>
    .ofToken commaToken ++ definition.trace ++ traceMoreDefinitions rest

end

section Marks

attribute [local simp] Element.trace traceRun traceMore traceBranches traceConditions traceJoins
  traceClauses traceMoreRows traceMerge traceMoreDefinitions traceHead

@[simp] theorem traceRun_append (first second : List Element) :
    traceRun (first ++ second) = traceRun first ++ traceRun second := by
  induction first with
  | nil => simp
  | cons element rest ih => rw [List.cons_append, traceRun, ih, traceRun, Trace.append_assoc]

theorem marks_eq_flatMap {α : Type} (trace : List α → Trace) (part : α → List Mark)
    (nil : trace [] = .empty)
    (cons : ∀ entry rest, (trace (entry :: rest)).marks = part entry ++ (trace rest).marks)
    (entries : List α) : (trace entries).marks = entries.flatMap part := by
  induction entries with
  | nil => rw [nil, Trace.marks_empty, List.flatMap_nil]
  | cons entry rest ih => rw [cons, ih, List.flatMap_cons]

theorem marks_traceMore (items : List (List Element)) :
    (traceMore items).marks = items.flatMap fun item => commaMark :: (traceRun item).marks := by
  refine marks_eq_flatMap traceMore _ ?_ ?_ items
  · simp
  · intro item rest
    simp [commaMark]

theorem marks_traceBranches (branches : List (Branch Element)) :
    (traceBranches branches).marks =
      branches.flatMap fun branch => .ofToken branch.keyword :: (traceRun branch.elements).marks := by
  refine marks_eq_flatMap traceBranches _ ?_ ?_ branches
  · simp
  · intro branch rest
    simp

theorem marks_traceConditions (conditions : List (Condition Element)) :
    (traceConditions conditions).marks =
      conditions.flatMap fun condition =>
        condition.connector.toList.map .ofToken ++ (traceRun condition.elements).marks := by
  refine marks_eq_flatMap traceConditions _ ?_ ?_ conditions
  · simp
  · intro condition rest
    simp

theorem marks_cutCommas (elements first : List Element) (others : List (Token × List Element))
    (cut : cutCommas elements = (first, others)) :
    (traceRun elements).marks =
      (traceRun first).marks ++
        others.flatMap fun part => .ofToken part.1 :: (traceRun part.2).marks := by
  have whole := cutCommas_flatten elements
  rw [cut] at whole
  rw [← whole, traceRun_append, Trace.marks_append]
  congr 1
  clear whole cut
  induction others with
  | nil => simp
  | cons part rest ih => simp [ih]

def traceJoin (join : Join Element) : Trace :=
  .ofToken join.keyword ++ traceRun join.source ++ traceConditions join.conditions ++
    traceRun join.columns

theorem marks_traceJoins (joins : List (Join Element)) :
    (traceJoins joins).marks = joins.flatMap fun join => (traceJoin join).marks := by
  refine marks_eq_flatMap traceJoins _ ?_ ?_ joins
  · simp
  · intro join rest
    simp [traceJoin]

def Clause.trace (clause : Clause Element) : Trace :=
  .ofTokens clause.keyword.toList ++ traceClause clause.keyword clause.body

theorem marks_traceClauses (clauses : List (Clause Element)) :
    (traceClauses clauses).marks = clauses.flatMap fun clause => clause.trace.marks := by
  refine marks_eq_flatMap traceClauses _ ?_ ?_ clauses
  · simp
  · intro clause rest
    simp [Clause.trace]

theorem marks_traceMoreRows (rows : List (List Element)) :
    (traceMoreRows rows).marks = rows.flatMap fun row => commaMark :: (traceRow row).marks := by
  refine marks_eq_flatMap traceMoreRows _ ?_ ?_ rows
  · simp
  · intro row rest
    simp [commaMark]

def Form.traceAction (action : Form) : Trace :=
  if action.isAction then action.trace else action.trace.hidden

theorem marks_traceMerge (branches : List MergeBranch) :
    (traceMerge branches).marks =
      branches.flatMap fun branch =>
        .ofToken branch.keyword :: (traceRun branch.head).marks ++
          branch.action.traceAction.marks := by
  refine marks_eq_flatMap traceMerge _ ?_ ?_ branches
  · simp
  · rintro ⟨keyword, head, action⟩ rest
    simp [Form.traceAction]

theorem marks_traceMoreDefinitions (definitions : List Definition) :
    (traceMoreDefinitions definitions).marks =
      definitions.flatMap fun definition => commaMark :: definition.trace.marks := by
  refine marks_eq_flatMap traceMoreDefinitions _ ?_ ?_ definitions
  · simp
  · intro definition rest
    simp [commaMark]

def Element.traceHead : Element → Trace
  | .group inner => if inner.role = .tuple then inner.traceTuple else inner.trace
  | other => other.trace

theorem marks_traceHead (head : List Element) :
    (traceHead head).marks = head.flatMap fun element => element.traceHead.marks := by
  refine marks_eq_flatMap traceHead _ ?_ ?_ head
  · simp
  · intro element rest
    cases element with
    | token token => simp [Element.traceHead]
    | group group => simp [Element.traceHead]
    | case inner => simp [Element.traceHead]

end Marks

theorem trace_group (group : Group) :
    group.trace =
      .opening group.opening ++
        (if group.role = .subquery ∧ group.body.isSome then traceBody group.body
          else traceRun group.elements) ++
        .closing group.closing := by
  cases group
  rw [Group.trace]

theorem trace_tuple (group : Group) :
    group.traceTuple =
      .opening group.opening ++ traceItems group.items ++ .closing group.closing := by
  cases group
  rw [Group.traceTuple]

theorem traceRow_of_ne_group (row : List Element) (several : ∀ group, row ≠ [.group group]) :
    traceRow row = traceRun row := by
  fun_cases traceRow row with
  | case1 => rw [traceRun]
  | case2 group => exact absurd rfl (several group)
  | case3 group => exact absurd rfl (several group)
  | case4 element rest => rw [traceRun]

end SqlLayout.Tree
