import Mathlib.Order.Monotone.Basic
import SqlLayout.Proofs.Completeness
import SqlLayout.Proofs.Conservation
import SqlLayout.Proofs.LockstepForms

/-! Tokens at other places. Where a token starts matters for two things only: tokens collected
from a tree are put in order by it, and comments that begin a line are found by it. So moving
the tokens of a statement, as long as their order stays and the same comments begin a line,
does not change the text of the statement. -/
namespace SqlLayout

namespace Tree

open Layout

theorem keyword_moved (place : Nat → Nat) (keyword : Token) :
    (if keyword.isCompound then { keyword.moved place with text := keyword.text }
      else keyword.moved place) = keyword.moved place :=
  ite_self _

section Collecting

variable (place : Nat → Nat)

mutual

theorem Element.collect_moved (element : Element) :
    (element.recast (Token.moved place)).collect = element.collect.map (Token.moved place) := by
  match element with
  | .token _ => rfl
  | .group group => rw [Element.recast, Element.collect, Element.collect, group.collect_moved]
  | .case ⟨keyword, _, _, operand, branches⟩ =>
    simp only [Element.recast, Element.collect, keyword_moved, collectRun_moved operand,
      collectBranches_moved branches, List.map_append, List.map_cons, List.map_nil]

theorem Group.collect_moved (group : Group) :
    (group.recast (Token.moved place)).collect = group.collect.map (Token.moved place) := by
  match group with
  | ⟨_, _, _, _, body, elements, items⟩ =>
    simp only [Group.recast, Group.collect, collectRun_moved elements, collectRuns_moved items,
      collectBody_moved body, List.map_append, List.map_cons, List.map_nil]

theorem collectRun_moved (elements : List Element) :
    collectRun (recastRun (Token.moved place) elements) =
      (collectRun elements).map (Token.moved place) := by
  match elements with
  | [] => rfl
  | element :: rest =>
    rw [recastRun, collectRun, collectRun, element.collect_moved, collectRun_moved rest,
      List.map_append]

theorem collectRuns_moved (runs : List (List Element)) :
    collectRuns (recastRuns (Token.moved place) runs) =
      (collectRuns runs).map (Token.moved place) := by
  match runs with
  | [] => rfl
  | run :: rest =>
    rw [recastRuns, collectRuns, collectRuns, collectRun_moved run, collectRuns_moved rest,
      List.map_append]

theorem collectBody_moved (body : Option Statement) :
    collectBody (recastBody (Token.moved place) body) =
      (collectBody body).map (Token.moved place) := by
  match body with
  | none => rfl
  | some statement => rw [recastBody, collectBody, collectBody, statement.collect_moved]

theorem collectBranches_moved (branches : List (Branch Element)) :
    collectBranches (recastBranches (Token.moved place) branches) =
      (collectBranches branches).map (Token.moved place) := by
  match branches with
  | [] => rfl
  | ⟨_, elements⟩ :: rest =>
    simp only [recastBranches, collectBranches, collectRun_moved elements,
      collectBranches_moved rest, List.map_append, List.map_cons]

theorem collectConditions_moved (conditions : List (Condition Element)) :
    collectConditions (recastConditions (Token.moved place) conditions) =
      (collectConditions conditions).map (Token.moved place) := by
  match conditions with
  | [] => rfl
  | ⟨connector, elements⟩ :: rest =>
    have word : (connector.map (Token.moved place)).toList =
        connector.toList.map (Token.moved place) := by
      cases connector <;> rfl
    simp only [recastConditions, collectConditions, collectRun_moved elements,
      collectConditions_moved rest, word, List.map_append]

theorem collectJoins_moved (joins : List (Join Element)) :
    collectJoins (recastJoins (Token.moved place) joins) =
      (collectJoins joins).map (Token.moved place) := by
  match joins with
  | [] => rfl
  | ⟨_, source, conditions, columns⟩ :: rest =>
    simp only [recastJoins, collectJoins, collectRun_moved source,
      collectConditions_moved conditions, collectRun_moved columns, collectJoins_moved rest,
      List.map_append, List.map_cons]

theorem collectClause_moved (body : ClauseBody Element) :
    collectClause (recastClause (Token.moved place) body) =
      (collectClause body).map (Token.moved place) := by
  match body with
  | .run elements => rw [recastClause, collectClause, collectClause, collectRun_moved elements]
  | .projection modifiers ⟨items, _⟩ =>
    simp only [recastClause, collectClause, collectRun_moved modifiers, collectRuns_moved items,
      List.map_append]
  | .sources ⟨items, _⟩ joins =>
    simp only [recastClause, collectClause, collectRuns_moved items, collectJoins_moved joins,
      List.map_append]
  | .predicate conditions =>
    rw [recastClause, collectClause, collectClause, collectConditions_moved conditions]
  | .list ⟨items, _⟩ =>
    simp only [recastClause, collectClause, collectRuns_moved items, List.map_append]

theorem collectClauses_moved (clauses : List (Clause Element)) :
    collectClauses (recastClauses (Token.moved place) clauses) =
      (collectClauses clauses).map (Token.moved place) := by
  match clauses with
  | [] => rfl
  | ⟨keyword, body⟩ :: rest =>
    have word : (keyword.map (Token.moved place)).toList =
        keyword.toList.map (Token.moved place) := by
      cases keyword <;> rfl
    simp only [recastClauses, collectClauses, collectClause_moved body,
      collectClauses_moved rest, word, List.map_append]

theorem Statement.collect_moved (statement : Statement) :
    (statement.recast (Token.moved place)).collect =
      statement.collect.map (Token.moved place) := by
  match statement with
  | ⟨_, form, _⟩ =>
    simp only [Statement.recast, Statement.collect, form.collect_moved, List.map_append]

theorem collectColumns_moved (columns : Option Group) :
    collectColumns (recastColumns (Token.moved place) columns) =
      (collectColumns columns).map (Token.moved place) := by
  match columns with
  | none => rfl
  | some group => rw [recastColumns, collectColumns, collectColumns, group.collect_moved]

theorem collectTail_moved (tail : Option (Branch Element)) :
    collectTail (recastTail (Token.moved place) tail) =
      (collectTail tail).map (Token.moved place) := by
  match tail with
  | none => rfl
  | some ⟨_, elements⟩ =>
    simp only [recastTail, collectTail, collectRun_moved elements, List.map_cons]

theorem Form.collect_moved (form : Form) :
    (form.recast (Token.moved place)).collect = form.collect.map (Token.moved place) := by
  match form with
  | .query clauses => rw [Form.recast, Form.collect, Form.collect, collectClauses_moved clauses]
  | .insert _ target columns source =>
    simp only [Form.recast, Form.collect, collectRun_moved target, collectColumns_moved columns,
      source.collect_moved, List.map_append, List.map_cons]
  | .update _ target clauses =>
    simp only [Form.recast, Form.collect, collectRun_moved target, collectClauses_moved clauses,
      List.map_append, List.map_cons]
  | .delete _ target clauses =>
    simp only [Form.recast, Form.collect, collectRun_moved target, collectClauses_moved clauses,
      List.map_append, List.map_cons]
  | .merge _ target ⟨_, source, conditions⟩ branches =>
    simp only [Form.recast, Form.collect, collectRun_moved target, collectRun_moved source,
      collectConditions_moved conditions, collectMerge_moved branches, List.map_append,
      List.map_cons]
  | .withQueries _ modifiers definitions _ body =>
    simp only [Form.recast, Form.collect, collectRun_moved modifiers,
      collectDefinitions_moved definitions, body.collect_moved, List.map_append, List.map_cons]
  | .create _ object columns rest =>
    simp only [Form.recast, Form.collect, collectRun_moved object, collectColumns_moved columns,
      rest.collect_moved, List.map_append, List.map_cons]
  | .grant _ privileges clauses =>
    simp only [Form.recast, Form.collect, collectRun_moved privileges,
      collectBranches_moved clauses, List.map_append, List.map_cons]
  | .raw elements => rw [Form.recast, Form.collect, Form.collect, collectRun_moved elements]

theorem InsertSource.collect_moved (source : InsertSource) :
    (source.recast (Token.moved place)).collect = source.collect.map (Token.moved place) := by
  match source with
  | .nothing => rfl
  | .values _ ⟨items, _⟩ tail =>
    simp only [InsertSource.recast, InsertSource.collect, collectRuns_moved items,
      collectTail_moved tail, List.map_append, List.map_cons]
  | .statement body =>
    rw [InsertSource.recast, InsertSource.collect, InsertSource.collect, body.collect_moved]

theorem CreateRest.collect_moved (rest : CreateRest) :
    (rest.recast (Token.moved place)).collect = rest.collect.map (Token.moved place) := by
  match rest with
  | .nothing => rfl
  | .query _ body =>
    simp only [CreateRest.recast, CreateRest.collect, body.collect_moved, List.map_cons]
  | .run elements =>
    rw [CreateRest.recast, CreateRest.collect, CreateRest.collect, collectRun_moved elements]

theorem collectMerge_moved (branches : List MergeBranch) :
    collectMerge (recastMerge (Token.moved place) branches) =
      (collectMerge branches).map (Token.moved place) := by
  match branches with
  | [] => rfl
  | ⟨_, head, action⟩ :: rest =>
    simp only [recastMerge, collectMerge, collectRun_moved head, action.collect_moved,
      collectMerge_moved rest, List.map_append, List.map_cons]

theorem collectDefinitions_moved (definitions : List Definition) :
    collectDefinitions (recastDefinitions (Token.moved place) definitions) =
      (collectDefinitions definitions).map (Token.moved place) := by
  match definitions with
  | [] => rfl
  | ⟨head, _, modifiers, query⟩ :: rest =>
    simp only [recastDefinitions, collectDefinitions, collectRun_moved head,
      collectRun_moved modifiers, query.collect_moved, collectDefinitions_moved rest,
      List.map_append, List.map_cons]

end

end Collecting

section Ordering

variable {place : Nat → Nat} (rises : StrictMono place)

include rises

theorem dropRepeats_moved (tokens : List Token) :
    dropRepeats (tokens.map (Token.moved place)) =
      (dropRepeats tokens).map (Token.moved place) := by
  fun_induction dropRepeats tokens with
  | case1 first second rest same ih =>
    have moved : (first.moved place).start = (second.moved place).start := congrArg place same
    rw [List.map_cons] at ih
    rw [List.map_cons, List.map_cons, dropRepeats, if_pos moved, ih]
  | case2 first second rest differ ih =>
    have moved : (first.moved place).start ≠ (second.moved place).start :=
      fun same => differ (rises.injective same)
    rw [List.map_cons] at ih
    rw [List.map_cons, List.map_cons, dropRepeats, if_neg moved, ih, List.map_cons]
  | case3 tokens single =>
    cases tokens with
    | nil => simp
    | cons first others =>
      cases others with
      | nil => simp [dropRepeats]
      | cons second rest => exact absurd rfl (single first second rest)

theorem inTextOrder_moved (tokens : List Token) :
    inTextOrder (tokens.map (Token.moved place)) =
      (inTextOrder tokens).map (Token.moved place) := by
  rw [inTextOrder, inTextOrder, ← dropRepeats_moved rises]
  refine congrArg dropRepeats (List.map_mergeSort fun first _ second _ => ?_).symm
  simp only [Token.moved, rises.le_iff_le]

theorem plainText_moved (run : List Element) :
    plainText (recastRun (Token.moved place) run) = plainText run := by
  have tokens (element : Element) :
      (element.recast (Token.moved place)).tokens = element.tokens.map (Token.moved place) := by
    rw [Element.tokens, Element.tokens, element.collect_moved, inTextOrder_moved rises]
  have solid : (fun token : Token => !token.isComment) ∘ Token.moved place =
      fun token => !token.isComment := rfl
  have texts : Token.text ∘ Token.moved place = Token.text := rfl
  rw [plainText, plainText, recastRun_eq_map, List.flatMap_map]
  simp only [tokens, ← List.map_flatMap, List.filter_map, solid, List.map_map, texts]

end Ordering

end Tree

namespace Layout

open SqlLayout.Tree

theorem twin_moved (place : Nat → Nat) (token : Token) : Twin token (token.moved place) :=
  ⟨rfl, fun _ => rfl, fun _ => rfl, rfl, rfl, fun _ _ => Iff.rfl, fun _ _ => Iff.rfl, fun _ => rfl⟩

theorem renaming_moved (style : Style) {place : Nat → Nat} (rises : StrictMono place) :
    Renaming style (Token.moved place) where
  written := fun token => ⟨twin_moved place token, fun _ _ _ => rfl, fun _ _ => rfl⟩
  named := fun _ run => plainText_moved rises run

end Layout

namespace Formatter

open Layout SqlLayout.Tree

theorem level_comma (copy : Recasting) : copy.Level commaMark :=
  ⟨rfl, by simp [commaMark, commaToken, Mark.ofToken, Token.plain]⟩

theorem level_walk (copy : Recasting) (vocabulary : Vocabulary) (statement : List Token)
    (begins : ∀ token ∈ statement, token.isComment = true →
      copy.starts.contains (copy.change token).start =
        copy.sheet.lineStarts.contains token.start) :
    ∀ mark ∈ (walk vocabulary statement).statement.trace.marks, copy.Level mark := by
  intro mark member
  rcases (carries_walk vocabulary statement).members mark member with rfl | counted
  · exact level_comma copy
  · obtain ⟨token, inside, rfl⟩ := List.mem_map.1 counted
    exact ⟨rfl, fun comment =>
      begins token (mem_of_counted token inside)
        (by simpa [Token.isComment, Mark.ofToken] using comment)⟩

/-- A statement and its twin come to texts that show the same marks if their trees do. -/
theorem shows_formatStatement_of_beside (formatter : Formatter) (copy : Recasting)
    {lines : List Nat}
    (sheet : copy.sheet = ⟨formatter.style, formatter.registry, formatter.width, lines⟩)
    (statement : List Token)
    (drawn : ∀ tree,
      tree = (walk ⟨formatter.registry, formatter.style.functionNames⟩ statement).statement →
      copy.Beside tree.trace.marks []
        ((copy.sheet.painter (tree.height + 1)).statement 0 tree {})
        ((copy.other.painter (tree.height + 1)).statement 0 (tree.recast copy.change) {})) :
    ∃ marks, (marks.map Mark.token).Sublist (formatter.shown statement) ∧
      copy.Shows marks (formatter.formatStatement lines statement).toList
        (formatter.formatStatement copy.starts (statement.map copy.change)).toList := by
  have kinds (token : Token) : (copy.change token).kind = token.kind := (copy.twins token).kind
  have empty : (statement.map copy.change).all
        (fun token => token.isBlank || token.kind = .semicolon) =
      statement.all fun token => token.isBlank || token.kind = .semicolon := by
    simp only [List.all_map, Function.comp_def, Token.isBlank, kinds]
  have ends : (statement.map copy.change).getLast?.filter
        (fun token => token.kind = .semicolon) =
      (statement.getLast?.filter fun token => token.kind = .semicolon).map copy.change := by
    rw [List.getLast?_map, Option.filter_map]
    simp only [Function.comp_def, kinds]
  simp only [formatStatement, empty, ends, walk_recast copy.twins]
  split
  · exact ⟨[], List.nil_sublist _, .nil⟩
  · have shown := copy.shows_render _ (terminator statement)
      (fun token found => (kind_of_terminator statement token found).1) (drawn _ rfl)
    rw [Recasting.other, Sheet.withStarts, sheet] at shown
    obtain ⟨marks, inside, shows⟩ := shown
    refine ⟨marks, ?_, shows⟩
    have tokens := inside.map Mark.token
    rwa [List.map_append, List.map_map, show Mark.token ∘ Mark.ofToken = id from rfl,
      List.map_id] at tokens

/-- A statement with twins in the place of its tokens, and the same comments beginning lines,
comes to a text that shows the same marks. -/
theorem shows_formatStatement (formatter : Formatter) (copy : Recasting) {lines : List Nat}
    (sheet : copy.sheet = ⟨formatter.style, formatter.registry, formatter.width, lines⟩)
    (statement : List Token)
    (begins : ∀ token ∈ statement, token.isComment = true →
      copy.starts.contains (copy.change token).start =
        copy.sheet.lineStarts.contains token.start) :
    ∃ marks, (marks.map Mark.token).Sublist (formatter.shown statement) ∧
      copy.Shows marks (formatter.formatStatement lines statement).toList
        (formatter.formatStatement copy.starts (statement.map copy.change)).toList := by
  refine formatter.shows_formatStatement_of_beside copy sheet statement ?_
  rintro tree rfl
  refine (Recasting.inStep_painter copy _).statement 0 _ _ [] {} {} ?_
  rw [List.append_nil]
  exact .fresh copy false (level_walk copy _ statement begins)

theorem formatStatement_recast (formatter : Formatter) {lines starts : List Nat}
    {change : Token → Token} (renames : Renaming formatter.style change) (statement : List Token)
    (begins : ∀ token ∈ statement, token.isComment = true →
      starts.contains (change token).start = lines.contains token.start) :
    formatter.formatStatement starts (statement.map change) =
      formatter.formatStatement lines statement := by
  let sheet : Sheet := ⟨formatter.style, formatter.registry, formatter.width, lines⟩
  have styled : Renaming sheet.style change := renames
  obtain ⟨marks, -, shows⟩ := formatter.shows_formatStatement (styled.recasting starts) rfl
    statement begins
  exact String.toList_injective (styled.eq_of_shows shows)

end Formatter

end SqlLayout
