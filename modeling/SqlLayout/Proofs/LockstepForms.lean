import SqlLayout.Proofs.DrawingForms
import SqlLayout.Proofs.Lockstep

/-! Clauses and statements keep two writers in lockstep. So a tree and the same tree with twins in
the place of its tokens come to texts that show the same marks, whatever the style and the width,
and to the same text if no two twins are written differently. -/
namespace SqlLayout.Layout

open SqlLayout.Tree SqlLayout.Style

theorem marks_traceItems (items : List (List Element)) :
    (traceItems items).marks = commaList (fun item => (traceRun item).marks) items := by
  cases items with
  | nil => rw [traceItems, commaList, Trace.marks_empty]
  | cons first rest => rw [traceItems, Trace.marks_append, marks_traceMore, commaList]

theorem marks_traceRows (rows : List (List Element)) :
    (traceRows rows).marks = commaList (fun row => (traceRow row).marks) rows := by
  cases rows with
  | nil => rw [traceRows, commaList, Trace.marks_empty]
  | cons first rest => rw [traceRows, Trace.marks_append, marks_traceMoreRows, commaList]

theorem marks_traceDefinitions (definitions : List Definition) :
    (traceDefinitions definitions).marks =
      commaList (fun definition => definition.trace.marks) definitions := by
  cases definitions with
  | nil => rw [traceDefinitions, commaList, Trace.marks_empty]
  | cons first rest =>
    rw [traceDefinitions, Trace.marks_append, marks_traceMoreDefinitions, commaList]

namespace Recasting

variable {copy : Recasting} {left right : Painter} {whole rest : List Mark} {v w : Writer}
  (inStep : copy.InStep left right)

theorem beside_separated (place : Nat) (after : Writer → Writer) (quiet : Writer.Quiet after)
    (beside : copy.Beside whole (commaBefore place ++ rest) v w) :
    copy.Beside whole rest (if place = 0 then v else after (Sheet.punct commaToken v))
      (if place = 0 then w else after (Sheet.punct commaToken w)) := by
  unfold commaBefore at beside
  split at beside
  · rename_i first
    rwa [if_pos first, if_pos first]
  · rename_i later
    rw [if_neg later, if_neg later]
    exact (Beside.comma beside rfl).quiet quiet

theorem beside_lineBreakComma (indent : Nat)
    (beside : copy.Beside whole (commaMark :: rest) v w) :
    copy.Beside whole rest (copy.sheet.lineBreakComma indent v)
      (copy.other.lineBreakComma indent w) := by
  have style : copy.other.style = copy.sheet.style := rfl
  unfold Sheet.lineBreakComma
  rw [beside.inline, style]
  split
  · exact (beside.comma rfl).space
  split
  · have comma := (beside.newline indent).comma rfl
    simp only
    split
    · exact comma.space
    · exact comma.markAs openToken
  · exact (beside.comma rfl).newline indent

theorem beside_listComma (indent threshold index : Nat)
    (beside : copy.Beside whole (commaBefore index ++ rest) v w) :
    copy.Beside whole rest (copy.sheet.listComma indent threshold index v)
      (copy.other.listComma indent threshold index w) := by
  unfold Sheet.listComma
  unfold commaBefore at beside
  split
  · rename_i first
    rwa [if_pos first] at beside
  rename_i later
  rw [if_neg later] at beside
  split
  · exact beside_lineBreakComma indent beside
  · exact (Beside.comma beside rfl).space

include inStep in
theorem beside_items (mode : RunMode) (indent : Nat) (separate again : Nat → Writer → Writer)
    (separated : ∀ (place : Nat) (rest : List Mark) (x y : Writer),
      copy.Beside whole (commaBefore place ++ rest) x y →
      copy.Beside whole rest (separate place x) (again place y))
    (items : List (List Element))
    (beside : copy.Beside whole ((traceItems items).marks ++ rest) v w) :
    copy.Beside whole rest
      (Writer.each (fun place item u => left.run mode indent item (separate place u)) 0 items v)
      (Writer.each (fun place item u => right.run mode indent item (again place u)) 0
        (recastRuns copy.change items) w) := by
  rw [recastRuns_eq_map, Writer.each_map]
  exact beside.listed _ _ _ items (marks_traceItems items) fun place item member rest x y here =>
    (separated place _ x y here).run inStep mode indent

include inStep in
theorem beside_itemList (indent threshold : Nat) (items : List (List Element))
    (beside : copy.Beside whole ((traceItems items).marks ++ rest) v w) :
    copy.Beside whole rest (copy.sheet.itemList left indent threshold items v)
      (copy.other.itemList right indent threshold (recastRuns copy.change items) w) :=
  beside_items inStep {} indent _ _
    (fun place _ _ _ here => beside_listComma indent threshold place here) items beside

include inStep in
theorem beside_conditions (indent : Nat) (connect again : Nat → Token → Writer → Writer)
    (connected : ∀ (place : Nat) (connector : Token) (rest : List Mark) (x y : Writer),
      copy.Beside whole (.ofToken connector :: rest) x y →
      copy.Beside whole rest (connect place connector x)
        (again place (copy.change connector) y))
    (conditions : List (Condition Element))
    (beside : copy.Beside whole ((traceConditions conditions).marks ++ rest) v w) :
    copy.Beside whole rest
      (Writer.each (fun place condition u => left.run {} indent condition.elements
        (match condition.connector with
          | none => u
          | some connector => connect place connector u)) 0 conditions v)
      (Writer.each (fun place condition u => right.run {} indent condition.elements
        (match condition.connector with
          | none => u
          | some connector => again place connector u)) 0
        (recastConditions copy.change conditions) w) := by
  rw [recastConditions_eq_map, Writer.each_map]
  refine beside.each _ _ _ 0 conditions (marks_traceConditions conditions) ?_
  rintro place - ⟨connector, elements⟩ member rest x y here
  rw [List.append_assoc] at here
  refine Beside.run ?_ inStep {} indent
  cases connector with
  | none => exact here
  | some connector => exact connected place connector _ x y here

include inStep

theorem beside_joinConditions (indent keywordEnd : Nat) (conditions : List (Condition Element))
    (beside : copy.Beside whole ((traceConditions conditions).marks ++ rest) v w) :
    copy.Beside whole rest (copy.sheet.joinConditions left indent keywordEnd conditions v)
      (copy.other.joinConditions right indent keywordEnd
        (recastConditions copy.change conditions) w) := by
  have length : (recastConditions copy.change conditions).length = conditions.length := by
    rw [recastConditions_eq_map, List.length_map]
  have style : copy.other.style = copy.sheet.style := rfl
  unfold Sheet.joinConditions
  simp only [length, style]
  refine beside_conditions inStep (keywordEnd + 1)
    (fun _ connector u => copy.sheet.token indent connector
      (if copy.sheet.style.joinWrapStyle.wraps conditions.length then
        u.newline (max (keywordEnd - connector.contents.length) indent) else u))
    (fun _ connector u => copy.other.token indent connector
      (if copy.sheet.style.joinWrapStyle.wraps conditions.length then
        u.newline (max (keywordEnd - connector.contents.length) indent) else u))
    (fun _ connector rest x y here => ?_) conditions beside
  rw [(copy.twins connector).width]
  exact (here.quiet ((Writer.quiet_newline _).ite _)).token indent

theorem beside_predicates (base width : Nat) (conditions : List (Condition Element))
    (beside : copy.Beside whole ((traceConditions conditions).marks ++ rest) v w) :
    copy.Beside whole rest (copy.sheet.predicates left base width conditions v)
      (copy.other.predicates right base width (recastConditions copy.change conditions) w) := by
  have style : copy.other.style = copy.sheet.style := rfl
  unfold Sheet.predicates
  refine beside_conditions inStep (base + width + 1)
    (fun place connector u =>
      if place = 0 then copy.sheet.token base connector u
      else if copy.sheet.style.indentWhereConditions then
        copy.sheet.token base connector (u.newline (base + (width - connector.contents.length)))
      else (copy.sheet.token base connector (u.newline base)).padTo (base + width + 1))
    (fun place connector u =>
      if place = 0 then copy.other.token base connector u
      else if copy.sheet.style.indentWhereConditions then
        copy.other.token base connector (u.newline (base + (width - connector.contents.length)))
      else (copy.other.token base connector (u.newline base)).padTo (base + width + 1))
    (fun place connector rest x y here => ?_) conditions beside
  simp only [(copy.twins connector).width]
  split
  · exact here.token base
  split
  · exact (here.newline _).token base
  · exact ((here.newline base).token base).quiet (Writer.quiet_padTo _)

theorem beside_join (indent : Nat) (join : Join Element)
    (beside : copy.Beside whole ((traceJoin join).marks ++ rest) v w) :
    copy.Beside whole rest (copy.sheet.join left indent join v)
      (copy.other.join right indent (join.recast copy.change) w) := by
  obtain ⟨keyword, source, conditions, columns⟩ := join
  simp only [traceJoin, Trace.marks_append, Trace.marks_ofToken, List.append_assoc,
    List.cons_append, List.nil_append] at beside
  unfold Sheet.join
  simp only [Join.recast, (copy.twins keyword).width]
  exact (beside_joinConditions inStep indent _ conditions
    ((beside.token indent).run inStep _ (indent + 2))).run inStep {} (indent + 2)

theorem beside_sources (base : Nat) (tables : List (List Element)) (joins : List (Join Element))
    (beside : copy.Beside whole
      ((traceItems tables).marks ++ ((traceJoins joins).marks ++ rest)) v w) :
    copy.Beside whole rest (copy.sheet.sources left base tables joins v)
      (copy.other.sources right base (recastRuns copy.change tables)
        (recastJoins copy.change joins) w) := by
  have front := beside_items inStep { block := copy.sheet.style.newLineForSubselects } (base + 5)
    (fun place u => if place = 0 then u else (Sheet.punct commaToken u).newline (base + 5))
    (fun place u => if place = 0 then u else (Sheet.punct commaToken u).newline (base + 5))
    (fun place _ _ _ here => beside_separated place _ (Writer.quiet_newline (base + 5)) here)
    tables beside
  unfold Sheet.sources
  rw [recastJoins_eq_map, Writer.each_map]
  refine front.each _ _ _ 0 joins (marks_traceJoins joins) fun place _ join member rest x y here =>
    ?_
  exact beside_join inStep (base + 2) join (here.newline (base + 2))

theorem beside_looseRun (base : Nat) {keyword twin : Token} (same : Twin keyword twin)
    (elements : List Element)
    (beside : copy.Beside whole
      ((if dropsRun keyword.contents then (traceRun elements).hidden
        else traceRun elements).marks ++ rest) v w) :
    copy.Beside whole rest (copy.sheet.looseRun left base keyword elements v)
      (copy.other.looseRun right base twin (recastRun copy.change elements) w) := by
  have word (word : String) (member : word ∈ clauseWords) := same.clause word member
  unfold Sheet.looseRun
  simp only [word "SELECT" (by decide), word "FROM" (by decide), word "VALUES" (by decide),
    word "SET" (by decide), same.contains predicateClauses (by decide),
    same.contains orderingClauses (by decide), same.contains setOperators (by decide), same.width,
    isEmpty_recastRun]
  split
  · rename_i isSelect
    have kept : dropsRun keyword.contents = false := by
      rw [isSelect]
      decide
    rw [if_neg (by simp [kept])] at beside
    exact (beside.run inStep {} base).space
  split
  · rename_i dropped
    rw [if_pos (by simp_all [dropsRun])] at beside
    exact beside
  split
  · rename_i dropped
    rw [if_pos (by simp_all [dropsRun])] at beside
    exact beside.space
  rename_i isCut isList
  have kept : dropsRun keyword.contents = false := by simp_all [dropsRun]
  rw [if_neg (by simp [kept])] at beside
  split
  · split
    · rename_i nothing
      obtain rfl := List.isEmpty_iff.1 nothing
      exact beside
    · exact (beside.newline base).run inStep {} base
  · exact beside.run inStep {} _

theorem beside_clause (base : Nat) (clause : Clause Element)
    (beside : copy.Beside whole (clause.trace.marks ++ rest) v w) :
    copy.Beside whole rest (copy.sheet.clause left base clause v)
      (copy.other.clause right base (clause.recast copy.change) w) := by
  obtain ⟨keyword, body⟩ := clause
  simp only [Clause.trace, Trace.marks_append, Trace.marks_ofTokens, List.append_assoc] at beside
  cases keyword with
  | none =>
    cases body with
    | run elements => exact Beside.run beside inStep {} base
    | projection modifiers columns => exact beside
    | sources tables joins => exact beside
    | predicate conditions => exact beside
    | list entries => exact beside
  | some keyword =>
    have same := copy.twins keyword
    have named : copy.Beside whole ((traceClause (some keyword) body).marks ++ rest)
        (copy.sheet.token base keyword v) (copy.other.token base (copy.change keyword) w) :=
      Beside.token beside base
    have style : copy.other.style = copy.sheet.style := rfl
    cases body with
    | run elements =>
      refine beside_looseRun inStep base same elements ?_
      simpa only [traceClause, Option.any_some] using named
    | projection modifiers columns =>
      simp only [traceClause, Option.isSome_some, if_true, Trace.marks_append,
        List.append_assoc] at named
      exact beside_itemList inStep (base + 7) copy.sheet.style.maxColumnsSelect columns.items
        (named.run inStep {} base).space
    | sources tables joins =>
      simp only [traceClause, Option.isSome_some, if_true, Trace.marks_append,
        List.append_assoc] at named
      exact beside_sources inStep base tables.items joins named
    | predicate conditions =>
      simp only [traceClause, Option.isSome_some, if_true] at named
      unfold Sheet.clause
      simp only [Clause.recast, Option.map_some, recastClause, same.width]
      exact beside_predicates inStep base keyword.contents.length conditions named
    | list entries =>
      simp only [traceClause, Option.isSome_some, if_true] at named
      unfold Sheet.clause
      simp only [Clause.recast, Option.map_some, recastClause, same.clause "SET" (by decide),
        named.space.column, same.width, style]
      exact beside_itemList inStep _ copy.sheet.style.maxColumnsUpdate entries.items named.space

theorem beside_eachClause (base : Nat) (before : Nat → Writer → Writer)
    (quiet : ∀ place, Writer.Quiet (before place)) (clauses : List (Clause Element))
    (beside : copy.Beside whole ((traceClauses clauses).marks ++ rest) v w) :
    copy.Beside whole rest
      (Writer.each (fun place clause u => copy.sheet.clause left base clause (before place u)) 0
        clauses v)
      (Writer.each (fun place clause u => copy.other.clause right base clause (before place u)) 0
        (recastClauses copy.change clauses) w) := by
  rw [recastClauses_eq_map, Writer.each_map]
  refine beside.each _ _ _ 0 clauses (marks_traceClauses clauses)
    fun place _ clause member rest x y here => ?_
  exact beside_clause inStep base clause (here.quiet (quiet place))

theorem beside_clauses (base : Nat) (clauses : List (Clause Element))
    (beside : copy.Beside whole ((traceClauses clauses).marks ++ rest) v w) :
    copy.Beside whole rest (copy.sheet.clauses left base clauses v)
      (copy.other.clauses right base (recastClauses copy.change clauses) w) := by
  refine beside_eachClause inStep base
    (fun place u => if place = 0 then u else u.newline base) (fun place => ?_) clauses beside
  by_cases start : place = 0
  · simpa only [if_pos start] using Writer.quiet_id
  · simpa only [if_neg start] using Writer.quiet_newline base

theorem beside_update (base setIndent : Nat) (keyword : Token) (target : List Element)
    (clauses : List (Clause Element))
    (beside : copy.Beside whole
      (.ofToken keyword :: ((traceRun target).marks ++ ((traceClauses clauses).marks ++ rest)))
      v w) :
    copy.Beside whole rest (copy.sheet.update left base setIndent keyword target clauses v)
      (copy.other.update right base setIndent (copy.change keyword)
        (recastRun copy.change target) (recastClauses copy.change clauses) w) := by
  have style : copy.other.style = copy.sheet.style := rfl
  unfold Sheet.update
  simp only [recastClauses_eq_map, Writer.each_map, style]
  refine ((beside.token base).run inStep {} (base + 7)).each _ _ _ 0 clauses
    (marks_traceClauses clauses) fun place _ clause member rest x y here => ?_
  have other := beside_clause inStep base clause (here.newline base)
  obtain ⟨given, body⟩ := clause
  cases given with
  | none => cases body <;> exact other
  | some word =>
    cases body with
    | list entries =>
      simp only [Clause.recast, Option.map_some, recastClause,
        (copy.twins word).clause "SET" (by decide)]
      split
      · simp only [Clause.trace, Trace.marks_append, Trace.marks_ofTokens, List.append_assoc,
          traceClause, Option.isSome_some, if_true] at here
        exact beside_itemList inStep (setIndent + 4) copy.sheet.style.maxColumnsUpdate
          entries.items (Beside.token (here.newline setIndent) setIndent).space
      · exact other
    | run elements => exact other
    | projection modifiers columns => exact other
    | sources tables joins => exact other
    | predicate conditions => exact other

theorem beside_delete (base : Nat) (keyword : Token) (target : List Element)
    (clauses : List (Clause Element))
    (beside : copy.Beside whole
      (.ofToken keyword :: ((traceRun target).marks ++ ((traceClauses clauses).marks ++ rest)))
      v w) :
    copy.Beside whole rest (copy.sheet.delete left base keyword target clauses v)
      (copy.other.delete right base (copy.change keyword) (recastRun copy.change target)
        (recastClauses copy.change clauses) w) :=
  beside_eachClause inStep base (fun _ u => u.newline base)
    (fun _ => Writer.quiet_newline base) clauses
    ((beside.token base).run inStep {} (base + 7))

omit inStep in
theorem beside_columnComment (names : List String)
    (asked : names = [] ∨ copy.sheet.style.addColumnNameComments = true) (index : Nat)
    (item : List Element) (beside : copy.Beside whole ((traceRun item).marks ++ rest) v w) :
    ∃ value, (Sheet.columnComment names index item v).1 = value ∧
      (Sheet.columnComment names index (recastRun copy.change item) w).1 =
        recastRun copy.change value ∧
      copy.Beside whole ((traceRun value).marks ++ rest) (Sheet.columnComment names index item v).2
        (Sheet.columnComment names index (recastRun copy.change item) w).2 := by
  unfold Sheet.columnComment
  cases found : names[index]? with
  | none => exact ⟨item, rfl, rfl, beside⟩
  | some name =>
    have asks : copy.sheet.style.addColumnNameComments = true := by
      rcases asked with rfl | asks
      · simp at found
      · exact asks
    have named (rest : List Mark) (here : copy.Beside whole ([] ++ rest) v w) :
        copy.Beside whole rest ((v.write ("/* " ++ name ++ " */")).space.markAs openToken)
          ((w.write ("/* " ++ name ++ " */")).space.markAs openToken) :=
      ((here.write (.noted _ asks)).space).markAs openToken
    have whole := named _ beside
    cases item with
    | nil => exact ⟨[], rfl, rfl, whole⟩
    | cons element others =>
      cases element with
      | token first =>
        have same := copy.twins first
        have said : ((copy.change first).isComment &&
              (copy.change first).text = "/* " ++ name ++ " */") =
            (first.isComment && first.text = "/* " ++ name ++ " */") := by
          rw [same.isComment]
          by_cases isComment : first.isComment = true
          · have kind : first.kind = .comment := by simpa [Token.isComment] using isComment
            rw [same.text (by rw [kind]; rfl)]
          · simp [isComment]
        simp only [recastRun, Element.recast, said]
        split
        · rw [traceRun, Trace.marks_append, List.append_assoc] at beside
          exact ⟨others, rfl, rfl, named _ (beside.shrink (List.nil_sublist _))⟩
        · exact ⟨.token first :: others, rfl, rfl, whole⟩
      | group inner => exact ⟨.group inner :: others, rfl, rfl, whole⟩
      | case inner =>
        refine ⟨.case inner :: others, rfl, ?_, ?_⟩
        · simp only [recastRun, Element.recast]
        · simp only [recastRun, Element.recast]
          exact whole

theorem beside_entries (indent : Nat) (names : List String)
    (asked : names = [] ∨ copy.sheet.style.addColumnNameComments = true)
    (separate again : Nat → Writer → Writer)
    (separated : ∀ (place : Nat) (rest : List Mark) (x y : Writer),
      copy.Beside whole (commaBefore place ++ rest) x y →
      copy.Beside whole rest (separate place x) (again place y))
    (items : List (List Element))
    (beside : copy.Beside whole ((traceItems items).marks ++ rest) v w) :
    copy.Beside whole rest
      (Writer.each (fun place item u =>
        left.run {} indent (Sheet.columnComment names place item (separate place u)).1
          (Sheet.columnComment names place item (separate place u)).2) 0 items v)
      (Writer.each (fun place item u =>
        right.run {} indent (Sheet.columnComment names place item (again place u)).1
          (Sheet.columnComment names place item (again place u)).2) 0
            (recastRuns copy.change items) w) := by
  rw [recastRuns_eq_map, Writer.each_map]
  refine beside.listed _ _ _ items (marks_traceItems items) ?_
  intro place item member rest x y here
  obtain ⟨value, first, second, named⟩ :=
    beside_columnComment names asked place item (separated place _ x y here)
  rw [first, second]
  exact named.run inStep {} indent

theorem beside_tupleBlock (base : Nat) (names : List String)
    (asked : names = [] ∨ copy.sheet.style.addColumnNameComments = true) (group : Group)
    (beside : copy.Beside whole (group.traceTuple.marks ++ rest) v w) :
    copy.Beside whole rest (copy.sheet.tupleBlock left base names group v)
      (copy.other.tupleBlock right base names (group.recast copy.change) w) := by
  obtain ⟨opening, closing, depth, role, body, elements, items⟩ := group
  simp only [trace_tuple, Trace.marks_append, Trace.marks_opening, Trace.marks_closing,
    List.append_assoc, List.cons_append, List.nil_append] at beside
  have opened (indent : Nat) := (beside.newline indent).punct (copy.twins opening) rfl
  have style : copy.other.style = copy.sheet.style := rfl
  unfold Sheet.tupleBlock
  simp only [Group.recast, beside.inline, style]
  generalize (if copy.sheet.style.indentInsert = true then base + 2 else base) = indent
  split
  · have drawn := beside_entries inStep indent names asked
      (fun place u => if place = 0 then u.newline indent else copy.sheet.lineBreakComma indent u)
      (fun place u => if place = 0 then u.newline indent else copy.other.lineBreakComma indent u)
      (fun place rest x y here => by
        unfold commaBefore at here
        split
        · rename_i first
          rw [if_pos first] at here
          exact Beside.newline here indent
        · rename_i later
          rw [if_neg later] at here
          exact beside_lineBreakComma indent here) items (opened base)
    exact (drawn.newline base).punct (copy.twins closing) rfl
  · have drawn := beside_entries inStep (indent + 1) names asked
      (copy.sheet.listComma (indent + 1) copy.sheet.style.maxColumnsInsert)
      (copy.other.listComma (indent + 1) copy.sheet.style.maxColumnsInsert)
      (fun place _ _ _ here => beside_listComma _ _ place here) items (opened indent)
    exact drawn.punct (copy.twins closing) rfl

omit inStep in
theorem row_of_ne_group (sheet : Sheet) (painter : Painter) (base : Nat) (names : List String)
    (item : List Element) (several : ∀ group, item ≠ [.group group]) (w : Writer) :
    sheet.row painter base names item w = painter.run {} (base + 2) item w := by
  unfold Sheet.row
  split
  · rename_i inner
    exact absurd rfl (several inner)
  · rfl

omit inStep in
theorem recastRun_ne_group (item : List Element) (several : ∀ group, item ≠ [.group group]) :
    ∀ group, recastRun copy.change item ≠ [.group group] := by
  intro group same
  match item with
  | [] => cases same
  | [.token _] => cases same
  | [.group inner] => exact several inner rfl
  | [.case ⟨_, _, _, _, _⟩] =>
    simp only [recastRun, Element.recast] at same
    cases same
  | _ :: _ :: _ => exact absurd (congrArg List.length same) (by simp [recastRun])

theorem beside_row (base : Nat) (names : List String)
    (asked : names = [] ∨ copy.sheet.style.addColumnNameComments = true) (item : List Element)
    (beside : copy.Beside whole ((traceRow item).marks ++ rest) v w) :
    copy.Beside whole rest (copy.sheet.row left base names item v)
      (copy.other.row right base names (recastRun copy.change item) w) := by
  by_cases single : ∃ inner, item = [.group inner]
  · obtain ⟨inner, rfl⟩ := single
    rw [traceRow] at beside
    simp only [recastRun, Element.recast, Sheet.row, isSubquery_recast]
    split
    · rename_i isSubquery
      rw [if_pos isSubquery] at beside
      have alone : (traceRun [.group inner]).marks = inner.trace.marks := by
        rw [traceRun, traceRun, Trace.append_empty, Element.trace]
      rw [← alone] at beside
      exact beside.run inStep {} (base + 2)
    · rename_i other
      rw [if_neg other] at beside
      exact beside_tupleBlock inStep base names asked inner beside
  · have several : ∀ group, item ≠ [.group group] := fun group same => single ⟨group, same⟩
    rw [traceRow_of_ne_group item several] at beside
    rw [row_of_ne_group copy.sheet left base names item several,
      row_of_ne_group copy.other right base names _ (recastRun_ne_group item several)]
    exact beside.run inStep {} (base + 2)

theorem beside_insertSource (base : Nat) (names : List String) (source : InsertSource)
    (beside : copy.Beside whole (source.trace.marks ++ rest) v w) :
    copy.Beside whole rest (copy.sheet.insertSource left base names source v)
      (copy.other.insertSource right base names (source.recast copy.change) w) := by
  have style : copy.other.style = copy.sheet.style := rfl
  cases source with
  | nothing => exact beside
  | statement body => exact (beside.newline base).statement inStep base
  | values keyword rows tail =>
    obtain ⟨items, commas⟩ := rows
    simp only [InsertSource.trace, Trace.marks_append, Trace.marks_ofToken, List.append_assoc,
      List.cons_append, List.nil_append] at beside
    unfold Sheet.insertSource
    simp only [InsertSource.recast, style, recastRuns_eq_map, Writer.each_map]
    have asked : (if copy.sheet.style.addColumnNameComments then names else []) = [] ∨
        copy.sheet.style.addColumnNameComments = true := by
      split
      · rename_i asks
        exact .inr asks
      · exact .inl rfl
    have shown := ((beside.newline base).token base).listed _
      (fun index item u => copy.sheet.row left base
        (if copy.sheet.style.addColumnNameComments then names else []) item
        (if index = 0 then u else Sheet.punct commaToken u))
      (fun index item u => copy.other.row right base
        (if copy.sheet.style.addColumnNameComments then names else [])
        (recastRun copy.change item)
        (if index = 0 then u else Sheet.punct commaToken u)) items (marks_traceRows items)
      (fun place item member rest x y here =>
        beside_row inStep base _ asked item
          (beside_separated place (fun u => u) Writer.quiet_id here))
    cases tail with
    | none => exact shown
    | some branch =>
      obtain ⟨word, elements⟩ := branch
      simp only [traceTail, Trace.marks_append, Trace.marks_ofToken, List.cons_append,
        List.nil_append] at shown
      exact beside_looseRun inStep base (copy.twins word) elements
        ((shown.newline base).token base)

theorem beside_insert (base : Nat) (keyword : Token) (target : List Element)
    (columns : Option Group) (source : InsertSource)
    (beside : copy.Beside whole
      ((Form.insert keyword target columns source).trace.marks ++ rest) v w) :
    copy.Beside whole rest (copy.sheet.insert left base keyword target columns source v)
      (copy.other.insert right base (copy.change keyword) (recastRun copy.change target)
        (recastColumns copy.change columns) (source.recast copy.change) w) := by
  simp only [Form.trace, Trace.marks_append, Trace.marks_ofForm, Trace.marks_ofToken,
    List.append_assoc, List.cons_append, List.nil_append] at beside
  have front := (beside.token base).run inStep {} (base + 7)
  cases columns with
  | none => exact beside_insertSource inStep base [] source front
  | some group =>
    have drawn := beside_insertSource inStep base (group.items.map plainText) source
      (beside_tupleBlock inStep base [] (.inl rfl) group front)
    -- The names of the columns are looked at only where they are shown.
    have shown : copy.other.insertSource right base
        ((group.recast copy.change).items.map plainText) (source.recast copy.change) =
      copy.other.insertSource right base (group.items.map plainText)
        (source.recast copy.change) := by
      have same (asks : copy.sheet.style.addColumnNameComments = true) :
          (group.recast copy.change).items.map plainText = group.items.map plainText := by
        obtain ⟨opening, closing, depth, role, body, elements, items⟩ := group
        simp only [Group.recast, recastRuns_eq_map, List.map_map]
        exact List.map_congr_left fun item _ => copy.named asks item
      by_cases asks : copy.sheet.style.addColumnNameComments = true
      · rw [same asks]
      · have off : copy.other.style.addColumnNameComments = false :=
          Bool.not_eq_true _ ▸ asks
        funext u
        unfold Sheet.insertSource
        simp only [off, Bool.false_eq_true, if_false]
    unfold Sheet.insert
    simp only [recastColumns]
    rw [shown]
    exact drawn

theorem beside_mergeAction (base : Nat) (action : Form)
    (beside : copy.Beside whole (action.traceAction.marks ++ rest) v w) :
    copy.Beside whole rest (copy.sheet.mergeAction left base action v)
      (copy.other.mergeAction right base (action.recast copy.change) w) := by
  cases action with
  | update keyword target clauses =>
    simp only [Form.traceAction, Form.isAction, if_true, Form.trace, Trace.marks_append,
      Trace.marks_ofForm, Trace.marks_ofToken, List.append_assoc, List.cons_append,
      List.nil_append] at beside
    rw [Form.recast]
    exact beside_update inStep base base keyword target clauses beside
  | insert keyword target columns source =>
    rw [Form.recast]
    exact beside_insert inStep base keyword target columns source (beside.newline base)
  | raw elements =>
    rw [Form.recast]
    exact Beside.run beside inStep {} base
  | query clauses => exact beside
  | delete keyword target clauses => exact beside
  | merge keyword target source branches =>
    obtain ⟨usingWord, elements, conditions⟩ := source
    exact beside
  | withQueries keyword modifiers definitions commas body => exact beside
  | create keyword object columns rest => exact beside
  | grant keyword privileges clauses => exact beside

theorem beside_merge (base : Nat) (keyword : Token) (target : List Element) (source : MergeSource)
    (branches : List MergeBranch)
    (beside : copy.Beside whole
      ((Form.merge keyword target source branches).trace.marks ++ rest) v w) :
    copy.Beside whole rest (copy.sheet.merge left base keyword target source branches v)
      (copy.other.merge right base (copy.change keyword) (recastRun copy.change target)
        ⟨copy.change source.keyword, recastRun copy.change source.source,
          recastConditions copy.change source.conditions⟩ (recastMerge copy.change branches)
        w) := by
  obtain ⟨usingWord, elements, conditions⟩ := source
  simp only [Form.trace, Trace.marks_append, Trace.marks_ofForm, Trace.marks_ofToken,
    List.append_assoc, List.cons_append, List.nil_append] at beside
  have front := beside_joinConditions inStep base (base + 5) conditions
    (((((beside.token base).run inStep {} (base + 6)).newline base).token base).run inStep
      { block := true } (base + 6))
  unfold Sheet.merge
  rw [recastMerge_eq_map, Writer.each_map]
  refine front.each _ _ _ 0 branches (marks_traceMerge branches)
    fun place _ branch member rest x y here => ?_
  rw [List.cons_append, List.cons_append, List.append_assoc] at here
  exact beside_mergeAction inStep (base + 2) branch.action
    (((here.newline base).token base).run inStep {} (base + 2))

theorem beside_inlineTuple (indent : Nat) (group : Group)
    (beside : copy.Beside whole (group.traceTuple.marks ++ rest) v w) :
    copy.Beside whole rest (Sheet.inlineTuple left indent group v)
      (Sheet.inlineTuple right indent (group.recast copy.change) w) := by
  obtain ⟨opening, closing, depth, role, body, elements, items⟩ := group
  simp only [trace_tuple, Trace.marks_append, Trace.marks_opening, Trace.marks_closing,
    List.append_assoc, List.cons_append, List.nil_append] at beside
  have drawn := beside_items inStep {} indent
    (fun place u => if place = 0 then u else (Sheet.punct commaToken u).space)
    (fun place u => if place = 0 then u else (Sheet.punct commaToken u).space)
    (fun place _ _ _ here => beside_separated place _ Writer.quiet_space here) items
    (beside.space.punct (copy.twins opening) rfl)
  exact drawn.punct (copy.twins closing) rfl

theorem beside_definitionHead (base : Nat) (head : List Element)
    (beside : copy.Beside whole ((traceHead head).marks ++ rest) v w) :
    copy.Beside whole rest (Sheet.definitionHead left base head v)
      (Sheet.definitionHead right base (recastRun copy.change head) w) := by
  unfold Sheet.definitionHead
  rw [recastRun_eq_map, Writer.each_map]
  refine beside.each _ _ _ 0 head (marks_traceHead head)
    fun place _ element member rest x y here => ?_
  have alone (same : element.traceHead = element.trace) :
      copy.Beside whole rest (left.run {} base [element] x)
        (right.run {} base [element.recast copy.change] y) := by
    have single : (traceRun [element]).marks = element.traceHead.marks := by
      rw [traceRun, traceRun, Trace.append_empty, same]
    rw [← single] at here
    exact here.run inStep {} base
  cases element with
  | token token => exact alone rfl
  | group inner =>
    have role : (inner.recast copy.change).role = inner.role := by
      cases inner
      rfl
    simp only [Element.recast, role] at alone ⊢
    split
    · rename_i isTuple
      rw [Element.traceHead, if_pos isTuple] at here
      exact beside_inlineTuple inStep base inner here
    · rename_i other
      refine alone ?_
      rw [Element.traceHead, if_neg other, Element.trace]
  | case inner =>
    obtain ⟨keyword, closing, depth, operand, branches⟩ := inner
    simp only [Element.recast] at alone ⊢
    exact alone rfl

theorem beside_definition (base : Nat) (definition : Definition)
    (beside : copy.Beside whole (definition.trace.marks ++ rest) v w) :
    copy.Beside whole rest (copy.sheet.definition left base definition v)
      (copy.other.definition right base (definition.recast copy.change) w) := by
  obtain ⟨head, keyword, modifiers, query⟩ := definition
  simp only [Definition.trace, Trace.marks_append, Trace.marks_ofToken, List.append_assoc,
    List.cons_append, List.nil_append] at beside
  have front := ((beside_definitionHead inStep base head beside).token base).run inStep {} base
  have alone : (traceRun [.group query]).marks = query.trace.marks := by
    rw [traceRun, traceRun, Trace.append_empty, Element.trace]
  have whole := front
  rw [← alone] at whole
  have whole := whole.run inStep {} base
  obtain ⟨opening, closing, depth, role, body, elements, items⟩ := query
  by_cases isSubquery : role = .subquery
  · subst isSubquery
    cases body with
    | none => exact whole
    | some body =>
      simp only [trace_group, Option.isSome_some, and_self, if_true, Trace.marks_append,
        Trace.marks_opening, Trace.marks_closing, traceBody, List.append_assoc, List.cons_append,
        List.nil_append] at front
      have opened := (front.newline base).punct (copy.twins opening) rfl
      exact (((opened.newline (base + 2)).statement inStep (base + 2)).newline base).punct
        (copy.twins closing) rfl
  · cases role with
    | subquery => exact absurd rfl isSubquery
    | grouping => exact whole
    | call => exact whole
    | tuple => exact whole

theorem beside_withQueries (base : Nat) (keyword : Token) (modifiers : List Element)
    (definitions : List Definition) (commas : List Token) (body : Statement)
    (beside : copy.Beside whole
      ((Form.withQueries keyword modifiers definitions commas body).trace.marks ++ rest) v w) :
    copy.Beside whole rest (copy.sheet.withQueries left base keyword modifiers definitions body v)
      (copy.other.withQueries right base (copy.change keyword)
        (recastRun copy.change modifiers) (recastDefinitions copy.change definitions)
        (body.recast copy.change) w) := by
  simp only [Form.trace, Trace.marks_append, Trace.marks_ofForm, Trace.marks_ofToken,
    List.append_assoc, List.cons_append, List.nil_append] at beside
  have front := ((beside.quiet Writer.quiet_broken).token base).run inStep {} base
  unfold Sheet.withQueries
  simp only [recastDefinitions_eq_map, Writer.each_map]
  refine Beside.statement (Beside.newline (front.listed _ _ _ definitions
    (marks_traceDefinitions definitions) fun place definition member rest x y here => ?_) base)
    inStep base
  exact beside_definition inStep base definition
    (beside_separated place _ (Writer.quiet_newline base) here)

theorem beside_columnRest (base : Nat) (rest : List Element) {behind : List Mark}
    (beside : copy.Beside whole ((traceRun rest).marks ++ behind) v w) :
    copy.Beside whole behind (copy.sheet.columnRest left base rest v)
      (copy.other.columnRest right base (recastRun copy.change rest) w) := by
  have drawn := beside.run inStep {} (base + 4)
  cases rest with
  | nil => exact drawn
  | cons element others =>
    cases element with
    | token first =>
      simp only [traceRun, Trace.marks_append, List.append_assoc] at beside
      simp only [recastRun, Element.recast] at drawn
      simp only [recastRun, Element.recast, Sheet.columnRest, (copy.twins first).kind]
      split
      · rename_i wordLike
        exact (Beside.typeWord beside wordLike).run inStep {} (base + 4)
      · exact drawn
    | group inner => exact drawn
    | case inner =>
      obtain ⟨keyword, closing, depth, operand, branches⟩ := inner
      simp only [recastRun, Element.recast] at drawn ⊢
      exact drawn

omit inStep in
theorem nameWidth_recast (items : List (List Element)) :
    Sheet.nameWidth (recastRuns copy.change items) = Sheet.nameWidth items := by
  rw [Sheet.nameWidth, Sheet.nameWidth, recastRuns_eq_map, List.map_map]
  refine congrArg (List.foldl max 0) (List.map_congr_left fun item _ => ?_)
  cases item with
  | nil => rfl
  | cons element rest =>
    cases element with
    | token token =>
      simp only [Function.comp_apply, recastRun, Element.recast, (copy.twins token).kind]
      split
      · rename_i name
        refine (copy.twins token).size (.inl ?_)
        cases kind : token.kind <;>
          simp_all [Token.isCompound, Token.isReserved, Token.Kind.isName]
      · rfl
    | group inner => rfl
    | case inner =>
      obtain ⟨keyword, closing, depth, operand, branches⟩ := inner
      simp only [Function.comp_apply, recastRun, Element.recast]

theorem beside_column (base column : Nat) (item : List Element) :
    copy.Beside whole ((traceRun item).marks ++ rest) v w → copy.Beside whole rest
      (match item with
        | .token name :: rest =>
          if name.kind.isName then
            copy.sheet.columnRest left base rest
              ((copy.sheet.token (base + 2) name v).padTo column)
          else left.run {} (base + 4) item v
        | _ => left.run {} (base + 4) item v)
      (match recastRun copy.change item with
        | .token name :: rest =>
          if name.kind.isName then
            copy.other.columnRest right base rest
              ((copy.other.token (base + 2) name w).padTo column)
          else right.run {} (base + 4) (recastRun copy.change item) w
        | _ => right.run {} (base + 4) (recastRun copy.change item) w) := by
  intro beside
  have drawn := beside.run inStep {} (base + 4)
  cases item with
  | nil => exact drawn
  | cons element others =>
    cases element with
    | token name =>
      simp only [traceRun, Trace.marks_append, List.append_assoc] at beside
      simp only [recastRun, Element.recast] at drawn
      simp only [recastRun, Element.recast, (copy.twins name).kind]
      split
      · exact beside_columnRest inStep base others
          ((Beside.token beside (base + 2)).quiet (Writer.quiet_padTo column))
      · exact drawn
    | group inner => exact drawn
    | case inner =>
      obtain ⟨keyword, closing, depth, operand, branches⟩ := inner
      simp only [recastRun, Element.recast] at drawn ⊢
      exact drawn

omit inStep in
theorem beside_trailed {α : Type} (part : α → List Mark) (draw again : Nat → α → Writer → Writer)
    (count index : Nat) (entries : List α) (last : index + entries.length = count)
    (entry : ∀ place, ∀ entry ∈ entries, ∀ (rest : List Mark) (v w : Writer),
      copy.Beside whole (part entry ++ rest) v w →
      copy.Beside whole rest (draw place entry v) (again place entry w))
    (beside : copy.Beside whole (commaList part entries ++ rest) v w) :
    copy.Beside whole rest
      (Writer.each (fun place entry u =>
        if place + 1 < count then Sheet.punct commaToken (draw place entry u)
        else draw place entry u) index entries v)
      (Writer.each (fun place entry u =>
        if place + 1 < count then Sheet.punct commaToken (again place entry u)
        else again place entry u) index entries w) := by
  induction entries generalizing index v w with
  | nil => exact beside
  | cons first others ih =>
    rw [commaList, List.append_assoc] at beside
    have drawn := entry index first (by simp) _ v w beside
    cases others with
    | nil =>
      have final : ¬index + 1 < count := by simp at last; omega
      simp only [Writer.each, if_neg final]
      exact drawn
    | cons second more =>
      have further : index + 1 < count := by simp at last; omega
      refine ih (index + 1) (by simp at last ⊢; omega)
        (fun place next member => entry place next (List.mem_cons_of_mem first member)) ?_
      simp only [if_pos further]
      exact Beside.comma drawn rfl

theorem beside_tableColumns (base : Nat) (group : Group)
    (beside : copy.Beside whole (group.traceTuple.marks ++ rest) v w) :
    copy.Beside whole rest (copy.sheet.tableColumns left base group v)
      (copy.other.tableColumns right base (group.recast copy.change) w) := by
  obtain ⟨opening, closing, depth, role, body, elements, items⟩ := group
  simp only [trace_tuple, Trace.marks_append, Trace.marks_opening, Trace.marks_closing,
    List.append_assoc, List.cons_append, List.nil_append, marks_traceItems] at beside
  have length : (recastRuns copy.change items).length = items.length := by
    rw [recastRuns_eq_map, List.length_map]
  unfold Sheet.tableColumns
  simp only [Group.recast, nameWidth_recast items, length]
  rw [recastRuns_eq_map, Writer.each_map]
  have drawn := beside_trailed _ _ _ items.length 0 items (by simp)
    (fun place item member rest x y here =>
      beside_column inStep base (base + 2 + Sheet.nameWidth items + 3) item
        (here.newline (base + 2)))
    ((beside.newline base).punct (copy.twins opening) rfl)
  exact (drawn.newline base).punct (copy.twins closing) rfl

theorem beside_createColumns (base : Nat) (object : List Element) (columns : Option Group) :
    copy.Beside whole ((traceColumns columns).marks ++ rest) v w → copy.Beside whole rest
      (match columns with
        | none => v
        | some group =>
          if object.any (Element.isKeyword ["TABLE"]) then
            copy.sheet.tableColumns left base group v
          else Sheet.inlineTuple left base group v)
      (match recastColumns copy.change columns with
        | none => w
        | some group =>
          if (recastRun copy.change object).any (Element.isKeyword ["TABLE"]) then
            copy.other.tableColumns right base group w
          else Sheet.inlineTuple right base group w) := by
  intro beside
  cases columns with
  | none => exact beside
  | some group =>
    simp only [recastColumns, any_recastRun _ (isKeyword_recast copy.twins ["TABLE"])]
    split
    · exact beside_tableColumns inStep base group beside
    · exact beside_inlineTuple inStep base group beside

theorem beside_create (base : Nat) (keyword : Token) (object : List Element)
    (columns : Option Group) (rest : CreateRest) {behind : List Mark}
    (beside : copy.Beside whole
      ((Form.create keyword object columns rest).trace.marks ++ behind) v w) :
    copy.Beside whole behind (copy.sheet.create left base keyword object columns rest v)
      (copy.other.create right base (copy.change keyword) (recastRun copy.change object)
        (recastColumns copy.change columns) (rest.recast copy.change) w) := by
  simp only [Form.trace, Trace.marks_append, Trace.marks_ofForm, Trace.marks_ofToken,
    List.append_assoc, List.cons_append, List.nil_append] at beside
  have middle := beside_createColumns inStep base object columns
    ((beside.token base).run inStep {} base)
  cases rest with
  | nothing => exact middle
  | query word body =>
    simp only [CreateRest.trace, Trace.marks_append, Trace.marks_ofToken, List.cons_append,
      List.nil_append] at middle
    exact (((middle.newline base).token base).newline base).statement inStep base
  | run elements => exact middle.run inStep {} base

theorem beside_grant (base : Nat) (keyword : Token) (privileges : List Element)
    (clauses : List (Branch Element))
    (beside : copy.Beside whole
      ((Form.grant keyword privileges clauses).trace.marks ++ rest) v w) :
    copy.Beside whole rest (copy.sheet.grant left base keyword privileges clauses v)
      (copy.other.grant right base (copy.change keyword) (recastRun copy.change privileges)
        (recastBranches copy.change clauses) w) := by
  simp only [Form.trace, Trace.marks_append, Trace.marks_ofForm, Trace.marks_ofToken,
    List.append_assoc, List.cons_append, List.nil_append] at beside
  unfold Sheet.grant
  rw [recastBranches_eq_map, Writer.each_map]
  refine ((beside.token base).run inStep {} (base + 2)).each _ _ _ 0 clauses
    (marks_traceBranches clauses) fun place _ branch member rest x y here => ?_
  exact ((here.newline (base + 2)).token (base + 2)).run inStep {} (base + 4)

theorem beside_form (base : Nat) (form : Form)
    (beside : copy.Beside whole (form.trace.marks ++ rest) v w) :
    copy.Beside whole rest (copy.sheet.form left base form v)
      (copy.other.form right base (form.recast copy.change) w) := by
  cases form with
  | query clauses =>
    rw [Form.recast]
    exact beside_clauses inStep base clauses beside
  | insert keyword target columns source =>
    rw [Form.recast]
    exact beside_insert inStep base keyword target columns source beside
  | update keyword target clauses =>
    simp only [Form.trace, Trace.marks_append, Trace.marks_ofForm, Trace.marks_ofToken,
      List.append_assoc, List.cons_append, List.nil_append] at beside
    rw [Form.recast]
    exact beside_update inStep base (base + 3) keyword target clauses beside
  | delete keyword target clauses =>
    simp only [Form.trace, Trace.marks_append, Trace.marks_ofForm, Trace.marks_ofToken,
      List.append_assoc, List.cons_append, List.nil_append] at beside
    rw [Form.recast]
    exact beside_delete inStep base keyword target clauses beside
  | merge keyword target source branches =>
    have drawn := beside_merge inStep base keyword target source branches beside
    obtain ⟨usingWord, elements, conditions⟩ := source
    rw [Form.recast]
    exact drawn
  | withQueries keyword modifiers definitions commas body =>
    rw [Form.recast]
    exact beside_withQueries inStep base keyword modifiers definitions commas body beside
  | create keyword object columns others =>
    rw [Form.recast]
    exact beside_create inStep base keyword object columns others beside
  | grant keyword privileges clauses =>
    rw [Form.recast]
    exact beside_grant inStep base keyword privileges clauses beside
  | raw elements =>
    rw [Form.recast]
    exact Beside.run beside inStep {} base

omit inStep in
theorem beside_comments (base : Nat) (after : Writer → Writer) (quiet : Writer.Quiet after)
    (index : Nat) (comments : List Token)
    (beside : copy.Beside whole
      (comments.map (fun token => ⟨token, .comment⟩) ++ rest) v w) :
    copy.Beside whole rest
      (Writer.each (fun _ comment u => after (copy.sheet.comment base comment u)) index comments v)
      (Writer.each (fun _ comment u => after (copy.other.comment base comment u)) index
        (comments.map copy.change) w) := by
  rw [Writer.each_map]
  refine beside.each (fun token => [⟨token, .comment⟩]) _ _ index comments List.map_eq_flatMap
    fun place _ comment member rest x y here => ?_
  have level := Beside.level_head here
  exact (Beside.comment here (copy.twins comment) level.kind (level.begins rfl) base).quiet quiet

theorem beside_statement (base : Nat) (statement : Statement)
    (beside : copy.Beside whole (statement.trace.marks ++ rest) v w) :
    copy.Beside whole rest (copy.sheet.statement left base statement v)
      (copy.other.statement right base (statement.recast copy.change) w) := by
  obtain ⟨leading, form, trailing⟩ := statement
  simp only [Statement.trace, Trace.marks_append, Trace.marks_comments,
    List.append_assoc] at beside
  exact beside_comments base (fun u => u) Writer.quiet_id 0 trailing
    (beside_form inStep base form
      (beside_comments base (Writer.newline base) (Writer.quiet_newline base) 0 leading beside))

omit inStep in
theorem inStep_painter (copy : Recasting) (height : Nat) :
    copy.InStep (copy.sheet.painter height) (copy.other.painter height) := by
  induction height with
  | zero =>
    exact ⟨fun _ _ _ _ _ _ _ beside => beside.shrink (List.nil_sublist _),
      fun _ _ _ _ _ _ beside => beside.shrink (List.nil_sublist _)⟩
  | succ height ih =>
    constructor
    · intro mode indent elements whole rest v w beside
      exact beside_runFrom ih mode indent false elements beside
    · intro base body whole rest v w beside
      exact beside_statement ih base body beside

omit inStep in
/-- A tree and its twin come to texts that show the same marks, and so do their terminators. -/
theorem shows_render (copy : Recasting) (statement : Statement) (terminator : Option Token)
    (ends : ∀ token ∈ terminator, token.kind = .semicolon)
    (drawn : copy.Beside whole []
      ((copy.sheet.painter (statement.height + 1)).statement 0 statement {})
      ((copy.other.painter (statement.height + 1)).statement 0 (statement.recast copy.change)
        {})) :
    ∃ marks, marks.Sublist (whole ++ terminator.toList.map .ofToken) ∧
      copy.Shows marks (copy.sheet.render statement terminator).toList
        (copy.other.render (statement.recast copy.change)
          (terminator.map copy.change)).toList := by
  unfold Sheet.render
  rw [statement.height_recast copy.change]
  cases terminator with
  | none =>
    obtain ⟨marks, inside, shows⟩ := drawn.shown
    refine ⟨marks, by simpa using inside, ?_⟩
    simpa only [Option.map_none, Writer.text, String.toList_ofList] using shows
  | some token =>
    have kind := ends token rfl
    have plain : token.kind.isWordLike = false := by
      rw [kind]
      rfl
    have level : copy.Level (.ofToken token) := by
      refine ⟨rfl, fun comment => ?_⟩
      rw [show (Mark.ofToken token).kind = token.kind from rfl, kind] at comment
      cases comment
    have whole := drawn.extend [.ofToken token] fun mark member => by
      rwa [List.mem_singleton.1 member]
    have broken := whole.quiet ((Writer.quiet_newline 0).ite
      (((copy.sheet.painter (statement.height + 1)).statement 0 statement {}).breakIndent.isSome =
        true))
    have final := Beside.put broken (writes_plain plain)
    obtain ⟨marks, inside, shows⟩ := final.shown
    rw [List.append_nil] at inside
    refine ⟨marks, inside, ?_⟩
    have pending : ((copy.other.painter (statement.height + 1)).statement 0
          (statement.recast copy.change) {}).breakIndent =
        ((copy.sheet.painter (statement.height + 1)).statement 0 statement {}).breakIndent := by
      rw [drawn.same]
      rfl
    simp only [Option.map_some, Writer.text, String.toList_ofList, Writer.terminate, pending,
      (copy.twins token).text plain]
    exact shows

end Recasting

/-- Twins that are written alike: once the case of a word is settled, its text is the same. -/
structure Written (style : Style) (token twin : Token) : Prop extends Twin token twin where
  applied : token.kind.isWordLike = true →
    ∀ choice ∈ [style.dataTypeCase, style.identifierCase, style.functionCase],
      choice.apply twin.text = choice.apply token.text
  collapsed : style.keywordCase = .asIs → token.isReserved = true →
    Text.collapse twin.text = Text.collapse token.text

theorem Written.spelt_eq {sheet : Sheet} {token twin : Token}
    (same : Written sheet.style token twin) (option : Option WordCase)
    (offers : sheet.Offers token option) :
    sheet.spelt option twin = sheet.spelt option token := by
  by_cases wordLike : token.kind.isWordLike = true
  · unfold Sheet.spelt
    rw [same.kind, if_pos wordLike, if_pos wordLike]
    cases option with
    | some choice => exact same.applied wordLike choice offers
    | none =>
      simp only [Sheet.keywordText, same.contents offers]
      cases given : sheet.style.keywordCase with
      | asIs => exact same.collapsed given offers
      | upper => rfl
      | lower => rfl
  · have plain : token.kind.isWordLike = false := by simpa using wordLike
    rw [Sheet.spelt_of_plain option plain, Sheet.spelt_of_plain option (same.kind ▸ plain),
      same.text plain]

structure Renaming (style : Style) (change : Token → Token) : Prop where
  written : ∀ token, Written style token (change token)
  named : style.addColumnNameComments = true → ∀ run,
    plainText (recastRun change run) = plainText run

namespace Renaming

variable {sheet : Sheet} {change : Token → Token}

theorem twins {style : Style} (renames : Renaming style change) (token : Token) :
    Twin token (change token) :=
  (renames.written token).toTwin

def recasting (renames : Renaming sheet.style change) (starts : List Nat) : Recasting where
  sheet := sheet
  starts := starts
  change := change
  twins := renames.twins
  lines := fun token option offers => by
    rw [(renames.written token).spelt_eq option offers]
    exact .refl _
  named := renames.named

/-- What shows the marks of tokens that are written alike is one text. -/
theorem eq_of_shows (renames : Renaming sheet.style change) {starts : List Nat}
    {marks : List Mark} {first second : List Char}
    (shows : (renames.recasting starts).Shows marks first second) : second = first := by
  induction shows with
  | nil => rfl
  | append before behind front back => rw [front, back]
  | gap blanks blank => rfl
  | mark mark text twin writes =>
    rcases writes with ⟨-, rfl, rfl⟩ | ⟨option, offers, rfl, rfl | rfl⟩
    · rfl
    · exact congrArg String.toList ((renames.written mark.token).spelt_eq option offers)
    · rfl
  | noted note asks => rfl

end Renaming

end SqlLayout.Layout
