import SqlLayout.Proofs.Drawing

/-! Clauses and statements are drawn as their traces say. Each function is followed once,
from its keyword on; behind the first keyword lines may be indented freely. -/
namespace SqlLayout.Layout

open SqlLayout.Tree SqlLayout.Style

namespace Sheet

variable {sheet : Sheet} {source : List Token} {height : Nat} {painter : Painter}

theorem drawn_separated (draw : Nat → List Element → Writer → Writer)
    (separate : Nat → Writer → Writer) (items : List (List Element)) (w : Writer)
    (started : w.last ≠ none)
    (entry : ∀ place, ∀ item ∈ items, ∀ v : Writer, v.last ≠ none →
      Drawn sheet source (traceRun item).marks v (draw place item v))
    (before : ∀ v : Writer, v.last ≠ none → Drawn sheet source [] v (separate 0 v))
    (between : ∀ place, place ≠ 0 → ∀ v : Writer, v.last ≠ none →
      Drawn sheet source [commaMark] v (separate place v)) :
    Drawn sheet source (traceItems items).marks w
      (Writer.each (fun place item v => draw place item (separate place v)) 0 items w) := by
  cases items with
  | nil =>
    rw [traceItems]
    exact .start sheet source started
  | cons item rest =>
    rw [traceItems, Trace.marks_append, marks_traceMore, Writer.each]
    have apart := before w started
    have front := apart.append (entry 0 item (by simp) _ apart.started)
    refine Drawn.each front _ _ 1 rest ?_
    intro place later next member v startedThere
    have comma := between place (by omega) v startedThere
    exact comma.append (entry place next (List.mem_cons_of_mem item member) _ comma.started)

theorem drawn_items (paints : Paints sheet source height painter) (mode : RunMode) (indent : Nat)
    (separate : Nat → Writer → Writer) (items : List (List Element)) (w : Writer)
    (bound : heightRuns items < height) (inside : collectRuns items ⊆ source)
    (started : w.last ≠ none)
    (before : ∀ v : Writer, v.last ≠ none → Drawn sheet source [] v (separate 0 v))
    (between : ∀ place, place ≠ 0 → ∀ v : Writer, v.last ≠ none →
      Drawn sheet source [commaMark] v (separate place v)) :
    Drawn sheet source (traceItems items).marks w
      (Writer.each (fun place item v => painter.run mode indent item (separate place v)) 0
        items w) := by
  refine drawn_separated (fun _ item v => painter.run mode indent item v) separate items w started
    ?_ before between
  intro place item member v startedThere
  have small := heightRun_le_runs member
  have within := List.Subset.trans (collectRun_subset_runs member) inside
  exact (Drawn.start sheet source startedThere).run paints mode indent item (by omega) within

theorem drawn_itemList (paints : Paints sheet source height painter) (indent threshold : Nat)
    (items : List (List Element)) (w : Writer) (bound : heightRuns items < height)
    (inside : collectRuns items ⊆ source) (started : w.last ≠ none) :
    Drawn sheet source (traceItems items).marks w
      (sheet.itemList painter indent threshold items w) := by
  refine drawn_items paints {} indent (sheet.listComma indent threshold) items w bound inside
    started ?_ ?_
  · intro v startedThere
    rw [listComma, if_pos rfl]
    exact .start sheet source startedThere
  · intro place later v startedThere
    exact (Drawn.start sheet source startedThere).step (sheet.draws_listComma indent threshold
      place v later fun nothing => absurd nothing startedThere)

theorem drawn_conditions (paints : Paints sheet source height painter) (indent : Nat)
    (connect : Nat → Token → Writer → Writer) (conditions : List (Condition Element))
    (w : Writer) (bound : heightConditions conditions < height)
    (inside : collectConditions conditions ⊆ source) (started : w.last ≠ none)
    (link : ∀ place connector, ∀ v : Writer, v.last ≠ none →
      Drawn sheet source [.ofToken connector] v (connect place connector v)) :
    Drawn sheet source (traceConditions conditions).marks w
      (Writer.each (fun place condition v =>
        painter.run {} indent condition.elements
          (match condition.connector with
            | none => v
            | some connector => connect place connector v)) 0 conditions w) := by
  rw [marks_traceConditions]
  refine (Drawn.start sheet source started).each _ _ 0 conditions ?_
  intro place later condition member v startedThere
  have small := heightRun_le_conditions member
  have within := List.Subset.trans (collectRun_subset_conditions member) inside
  have linked : Drawn sheet source (condition.connector.toList.map .ofToken) v
      (match condition.connector with
        | none => v
        | some connector => connect place connector v) := by
    cases condition.connector with
    | none => exact .start sheet source startedThere
    | some connector => exact link place connector v startedThere
  exact linked.run paints {} indent condition.elements (by omega) within

theorem drawn_joinConditions (paints : Paints sheet source height painter) (indent keywordEnd : Nat)
    (conditions : List (Condition Element)) (w : Writer)
    (bound : heightConditions conditions < height)
    (inside : collectConditions conditions ⊆ source) (started : w.last ≠ none) :
    Drawn sheet source (traceConditions conditions).marks w
      (sheet.joinConditions painter indent keywordEnd conditions w) := by
  refine drawn_conditions paints (keywordEnd + 1)
    (fun _ connector v => sheet.token indent connector
      (if sheet.style.joinWrapStyle.wraps conditions.length then
        v.newline (max (keywordEnd - connector.contents.length) indent) else v))
    conditions w bound inside started ?_
  intro place connector v startedThere
  split
  · exact ((Drawn.start sheet source startedThere).newline _).token indent connector
  · exact (Drawn.start sheet source startedThere).token indent connector

theorem drawn_predicates (paints : Paints sheet source height painter) (base width : Nat)
    (conditions : List (Condition Element)) (w : Writer)
    (bound : heightConditions conditions < height)
    (inside : collectConditions conditions ⊆ source) (started : w.last ≠ none) :
    Drawn sheet source (traceConditions conditions).marks w
      (sheet.predicates painter base width conditions w) := by
  refine drawn_conditions paints (base + width + 1)
    (fun place connector v =>
      if place = 0 then sheet.token base connector v
      else if sheet.style.indentWhereConditions then
        sheet.token base connector (v.newline (base + (width - connector.contents.length)))
      else (sheet.token base connector (v.newline base)).padTo (base + width + 1))
    conditions w bound inside started ?_
  intro place connector v startedThere
  have here := Drawn.start sheet source startedThere
  split
  · exact here.token base connector
  split
  · exact (here.newline _).token base connector
  · exact ((here.newline base).token base connector).padTo _

theorem drawn_join (paints : Paints sheet source height painter) (indent : Nat)
    (join : Join Element) (w : Writer) (bound : heightJoins [join] < height)
    (inside : collectJoins [join] ⊆ source) (started : w.last ≠ none) :
    Drawn sheet source (traceJoin join).marks w (sheet.join painter indent join w) := by
  simp only [heightJoins] at bound
  simp only [collectJoins, List.append_nil, List.append_subset, List.cons_subset] at inside
  obtain ⟨⟨⟨-, insideSource⟩, insideConditions⟩, insideColumns⟩ := inside
  have here := (Drawn.start sheet source started).token indent join.keyword
  have table := here.run paints { block := sheet.style.newLineForSubselects } (indent + 2)
    join.source (by omega) insideSource
  have linked := table.append (drawn_joinConditions paints indent
    (indent + join.keyword.contents.length) join.conditions _ (by omega) insideConditions
    table.started)
  exact linked.run paints {} (indent + 2) join.columns (by omega) insideColumns

theorem drawn_sources (paints : Paints sheet source height painter) (base : Nat)
    (tables : List (List Element)) (joins : List (Join Element)) (w : Writer)
    (bound : heightRuns tables < height) (joined : heightJoins joins < height)
    (inside : collectRuns tables ⊆ source) (insideJoins : collectJoins joins ⊆ source)
    (started : w.last ≠ none) :
    Drawn sheet source (traceItems tables ++ traceJoins joins).marks w
      (sheet.sources painter base tables joins w) := by
  have front := drawn_items paints { block := sheet.style.newLineForSubselects } (base + 5)
    (fun place v => if place = 0 then v else (punct commaToken v).newline (base + 5)) tables w
    bound inside started
    (by
      intro v startedThere
      exact .start sheet source startedThere)
    (by
      intro place later v startedThere
      rw [if_neg later]
      exact (Drawn.start sheet source startedThere).comma.newline (base + 5))
  rw [Trace.marks_append, marks_traceJoins]
  refine front.each _ _ 0 joins ?_
  intro place later join member v startedThere
  have small := heightJoins_le member
  have within := List.Subset.trans (collectJoins_subset member) insideJoins
  have line := (Drawn.start sheet source startedThere).newline (base + 2)
  exact line.append (drawn_join paints (base + 2) join _ (by omega) within line.started)

/-- A run that was not cut is drawn unless its keyword asks for items or conditions. -/
theorem drawn_looseRun (paints : Paints sheet source height painter) (base : Nat) (keyword : Token)
    (elements : List Element) (w : Writer) (bound : heightRun elements < height)
    (inside : collectRun elements ⊆ source) (started : w.last ≠ none) :
    Drawn sheet source (if dropsRun keyword.contents then [] else (traceRun elements).marks) w
      (sheet.looseRun painter base keyword elements w) := by
  have here := Drawn.start sheet source started
  unfold looseRun
  simp only
  by_cases isSelect : keyword.contents = "SELECT"
  · have kept : ¬dropsRun keyword.contents = true := by
      rw [isSelect]
      decide
    rw [if_neg kept, if_pos isSelect]
    exact (here.run paints {} base elements bound inside).space
  rw [if_neg isSelect]
  by_cases isCut : (keyword.contents = "FROM" || keyword.contents = "VALUES" ||
      predicateClauses.contains keyword.contents) = true
  · have dropped : dropsRun keyword.contents = true := by simp_all [dropsRun]
    rw [if_pos dropped, if_pos isCut]
    exact here
  rw [if_neg isCut]
  by_cases isList : (orderingClauses.contains keyword.contents || keyword.contents = "SET") = true
  · have dropped : dropsRun keyword.contents = true := by simp_all [dropsRun]
    rw [if_pos dropped, if_pos isList]
    exact here.space
  have kept : ¬dropsRun keyword.contents = true := by simp_all [dropsRun]
  rw [if_neg isList, if_neg kept]
  split
  · split
    · rename_i empty
      rw [List.isEmpty_iff.1 empty, traceRun]
      exact here
    · exact (here.newline base).run paints {} base elements bound inside
  · exact here.run paints {} _ elements bound inside

theorem draws_clause (paints : Paints sheet source height painter) (base : Nat)
    (clause : Clause Element) (w : Writer) (bound : heightClause clause.body < height)
    (inside : collectClause clause.body ⊆ source) (ready : w.Ready base) :
    Draws sheet source clause.trace.marks w (sheet.clause painter base clause w) := by
  obtain ⟨keyword, body⟩ := clause
  cases keyword with
  | none =>
    cases body with
    | run elements =>
      rw [heightClause] at bound
      rw [collectClause] at inside
      simp only [Clause.trace, traceClause]
      exact paints.run {} base elements w bound inside ready
    | projection modifiers columns => exact .done w
    | sources tables joins => exact .done w
    | predicate conditions => exact .done w
    | list entries => exact .done w
  | some keyword =>
    have head : Drawn sheet source [.ofToken keyword] w (sheet.token base keyword w) :=
      .first base keyword fun nothing => (ready nothing).1
    cases body with
    | run elements =>
      rw [heightClause] at bound
      rw [collectClause] at inside
      have rest := head.append (drawn_looseRun paints base keyword elements _ bound inside
        head.started)
      have shown : (Clause.mk (some keyword) (.run elements)).trace.marks =
          [.ofToken keyword] ++
            (if dropsRun keyword.contents then [] else (traceRun elements).marks) := by
        simp only [Clause.trace, traceClause, Option.any_some]
        split <;> rfl
      rw [shown]
      exact rest.draws
    | projection modifiers columns =>
      obtain ⟨items, commas⟩ := columns
      rw [heightClause] at bound
      simp only [collectClause, List.append_subset] at inside
      have front := (head.run paints {} base modifiers (by omega) inside.1.1).space
      have rest := front.append (drawn_itemList paints (base + 7) sheet.style.maxColumnsSelect
        items _ (by omega) inside.1.2 front.started)
      simpa [Clause.trace, traceClause, Sheet.clause] using rest.draws
    | sources tables joins =>
      obtain ⟨items, commas⟩ := tables
      rw [heightClause] at bound
      simp only [collectClause, List.append_subset] at inside
      have rest := head.append (drawn_sources paints base items joins _ (by omega) (by omega)
        inside.1.1 inside.2 head.started)
      simpa [Clause.trace, traceClause, Sheet.clause] using rest.draws
    | predicate conditions =>
      rw [heightClause] at bound
      rw [collectClause] at inside
      have rest := head.append (drawn_predicates paints base keyword.contents.length conditions _
        bound inside head.started)
      simpa [Clause.trace, traceClause, Sheet.clause] using rest.draws
    | list entries =>
      obtain ⟨items, commas⟩ := entries
      rw [heightClause] at bound
      simp only [collectClause, List.append_subset] at inside
      have rest := head.space.append (drawn_itemList paints
        (if keyword.contents = "SET" then (sheet.token base keyword w).space.column + 1
          else base + keyword.contents.length + 1)
        sheet.style.maxColumnsUpdate items _ bound inside.1 head.space.started)
      simpa [Clause.trace, traceClause, Sheet.clause] using rest.draws

theorem drawn_clause (paints : Paints sheet source height painter) (base : Nat)
    (clause : Clause Element) (w : Writer) (bound : heightClause clause.body < height)
    (inside : collectClause clause.body ⊆ source) (started : w.last ≠ none) :
    Drawn sheet source clause.trace.marks w (sheet.clause painter base clause w) :=
  (Drawn.start sheet source started).step
    (draws_clause paints base clause w bound inside (Writer.ready_of_last started base))

theorem draws_clauses (paints : Paints sheet source height painter) (base : Nat)
    (clauses : List (Clause Element)) (w : Writer) (bound : heightClauses clauses < height)
    (inside : collectClauses clauses ⊆ source) (ready : w.Ready base) :
    Draws sheet source (traceClauses clauses).marks w (sheet.clauses painter base clauses w) := by
  rw [marks_traceClauses]
  refine draws_each _ _ base clauses 0 w ready ?_
  intro place later clause member v readyThere
  have small := heightClause_le member
  have within := List.Subset.trans (collectClause_subset member) inside
  split
  · exact draws_clause paints base clause v (by omega) within readyThere
  · have line : Draws sheet source [] v (v.newline base) := .newline base v fun nothing =>
      (readyThere nothing).1
    exact line.after (draws_clause paints base clause _ (by omega) within (line.ready readyThere))

theorem drawn_clauses (paints : Paints sheet source height painter) (base : Nat)
    (clauses : List (Clause Element)) (w : Writer) (bound : heightClauses clauses < height)
    (inside : collectClauses clauses ⊆ source) (started : w.last ≠ none) :
    Drawn sheet source (traceClauses clauses).marks w
      (Writer.each (fun _ clause v => sheet.clause painter base clause (v.newline base)) 0
        clauses w) := by
  rw [marks_traceClauses]
  refine (Drawn.start sheet source started).each _ _ 0 clauses ?_
  intro place later clause member v startedThere
  have small := heightClause_le member
  have within := List.Subset.trans (collectClause_subset member) inside
  have line := (Drawn.start sheet source startedThere).newline base
  exact line.append (drawn_clause paints base clause _ (by omega) within line.started)

theorem drawn_update (paints : Paints sheet source height painter) (base setIndent : Nat)
    (keyword : Token) (target : List Element) (clauses : List (Clause Element)) (w : Writer)
    (bound : heightRun target < height) (bounds : heightClauses clauses < height)
    (inside : collectRun target ⊆ source) (insideClauses : collectClauses clauses ⊆ source)
    (ready : w.Ready base) :
    Drawn sheet source
      (.ofToken keyword :: (traceRun target).marks ++ (traceClauses clauses).marks) w
      (sheet.update painter base setIndent keyword target clauses w) := by
  have head : Drawn sheet source [.ofToken keyword] w (sheet.token base keyword w) :=
    .first base keyword fun nothing => (ready nothing).1
  have front := head.run paints {} (base + 7) target bound inside
  rw [marks_traceClauses]
  refine front.each _ _ 0 clauses ?_
  intro place later clause member v startedThere
  have small := heightClause_le member
  have within := List.Subset.trans (collectClause_subset member) insideClauses
  have line (indent : Nat) := (Drawn.start sheet source startedThere).newline indent
  have other := (line base).append (drawn_clause paints base clause _ (by omega) within
    (line base).started)
  split
  · rename_i word entries isWord isList
    split
    · obtain ⟨given, body⟩ := clause
      obtain ⟨items, commas⟩ := entries
      simp only at isWord isList
      subst isWord isList
      simp only [heightClause] at small
      simp only [collectClause, List.append_subset] at within
      have set := ((line setIndent).token setIndent word).space
      have rest := set.append (drawn_itemList paints (setIndent + 4) sheet.style.maxColumnsUpdate
        items _ (by omega) within.1 set.started)
      simpa [Clause.trace, traceClause] using rest
    · exact other
  · exact other

theorem drawn_delete (paints : Paints sheet source height painter) (base : Nat) (keyword : Token)
    (target : List Element) (clauses : List (Clause Element)) (w : Writer)
    (bound : heightRun target < height) (bounds : heightClauses clauses < height)
    (inside : collectRun target ⊆ source) (insideClauses : collectClauses clauses ⊆ source)
    (ready : w.Ready base) :
    Drawn sheet source
      (.ofToken keyword :: (traceRun target).marks ++ (traceClauses clauses).marks) w
      (sheet.delete painter base keyword target clauses w) := by
  have head : Drawn sheet source [.ofToken keyword] w (sheet.token base keyword w) :=
    .first base keyword fun nothing => (ready nothing).1
  have front := head.run paints {} (base + 7) target bound inside
  exact front.append (drawn_clauses paints base clauses _ bounds insideClauses front.started)

theorem drawn_value (paints : Paints sheet source height painter) (indent : Nat)
    (names : List String) (named : ∀ name ∈ names, IsName sheet source name) (index : Nat)
    (item : List Element) (w : Writer) (bound : heightRun item < height)
    (inside : collectRun item ⊆ source) (started : w.last ≠ none) :
    Drawn sheet source (traceRun item).marks w
      (painter.run {} indent (columnComment names index item w).1
        (columnComment names index item w).2) := by
  unfold columnComment
  cases found : names[index]? with
  | none => exact (Drawn.start sheet source started).run paints {} indent item bound inside
  | some name =>
    have isName := named name (List.mem_of_getElem? found)
    have kept : Drawn sheet source [] w
        ((w.write ("/* " ++ name ++ " */")).space.markAs openToken) :=
      ⟨.noted name [] w isName (by simp), by simp [Writer.markAs]⟩
    simp only
    split
    · rename_i first rest
      split
      · rename_i copies
        rw [heightRun] at bound
        rw [collectRun_cons, List.append_subset] at inside
        have noted : Drawn sheet source [.ofToken first] w
            ((w.write ("/* " ++ name ++ " */")).space.markAs openToken) := by
          refine ⟨.noted name [.ofToken first] w isName ?_, by simp [Writer.markAs]⟩
          intro mark member
          rw [List.mem_singleton.1 member]
          simpa [Mark.ofToken] using copies
        have whole := noted.run paints {} indent rest (by omega) inside.2
        simpa [traceRun, Element.trace] using whole
      · exact kept.run paints {} indent _ bound inside
    · exact kept.run paints {} indent item bound inside

theorem drawn_tupleBlock (paints : Paints sheet source height painter) (base : Nat)
    (names : List String) (named : ∀ name ∈ names, IsName sheet source name) (group : Group)
    (w : Writer) (bound : heightRuns group.items < height)
    (inside : collectRuns group.items ⊆ source) (started : w.last ≠ none) :
    Drawn sheet source group.traceTuple.marks w
      (sheet.tupleBlock painter base names group w) := by
  have here := Drawn.start sheet source started
  have value (indent place : Nat) (item : List Element) (member : item ∈ group.items) (v : Writer)
      (startedThere : v.last ≠ none) :
      Drawn sheet source (traceRun item).marks v
        (painter.run {} indent (columnComment names place item v).1
          (columnComment names place item v).2) := by
    have small := heightRun_le_runs member
    have within := List.Subset.trans (collectRun_subset_runs member) inside
    exact drawn_value paints indent names named place item v (by omega) within startedThere
  rw [trace_tuple]
  unfold tupleBlock
  simp only
  generalize (if sheet.style.indentInsert then base + 2 else base) = indent
  split
  · have opened := (here.newline base).opened group.opening
    have items := opened.append (drawn_separated _
      (fun place v => if place = 0 then v.newline indent else sheet.lineBreakComma indent v)
      group.items _ opened.started (value indent)
      (by
        intro v startedThere
        exact (Drawn.start sheet source startedThere).newline indent)
      (by
        intro place later v startedThere
        rw [if_neg later]
        exact (Drawn.start sheet source startedThere).step
          (sheet.draws_lineBreakComma indent v fun nothing => absurd nothing startedThere)))
    exact (items.newline base).closed group.closing
  · have opened := (here.newline indent).opened group.opening
    have items := opened.append (drawn_separated _
      (sheet.listComma (indent + 1) sheet.style.maxColumnsInsert) group.items _ opened.started
      (value (indent + 1))
      (by
        intro v startedThere
        rw [listComma, if_pos rfl]
        exact .start sheet source startedThere)
      (by
        intro place later v startedThere
        exact (Drawn.start sheet source startedThere).step (sheet.draws_listComma (indent + 1)
          sheet.style.maxColumnsInsert place v later fun nothing => absurd nothing startedThere)))
    exact items.closed group.closing

theorem drawn_row (paints : Paints sheet source height painter) (base : Nat)
    (names : List String) (named : ∀ name ∈ names, IsName sheet source name)
    (row : List Element) (w : Writer) (bound : heightRun row < height)
    (inside : collectRun row ⊆ source) (started : w.last ≠ none) :
    Drawn sheet source (traceRow row).marks w (sheet.row painter base names row w) := by
  have here := Drawn.start sheet source started
  unfold Sheet.row
  split
  · rename_i inner
    rw [traceRow]
    split
    · rename_i isSubquery
      have whole := here.run paints {} (base + 2) [.group inner] bound inside
      simpa [traceRun, Element.trace] using whole
    · rw [heightRun, heightRun, Element.height, height_group] at bound
      rw [collectRun_cons, Element.collect, collect_group] at inside
      have within : collectRuns inner.items ⊆ source := by
        grind
      exact drawn_tupleBlock paints base names named inner w (by omega) within started
  · rename_i several
    rw [traceRow_of_ne_group row several]
    exact here.run paints {} (base + 2) row bound inside

theorem drawn_insertSource (paints : Paints sheet source height painter) (base : Nat)
    (columns : List (List Element)) (rows : InsertSource) (w : Writer)
    (bound : rows.height < height) (insideColumns : collectRuns columns ⊆ source)
    (inside : rows.collect ⊆ source) (started : w.last ≠ none) :
    Drawn sheet source rows.trace.marks w
      (sheet.insertSource painter base (columns.map plainText) rows w) := by
  have here := Drawn.start sheet source started
  cases rows with
  | nothing =>
    rw [InsertSource.trace]
    exact here
  | statement body =>
    rw [InsertSource.height] at bound
    rw [InsertSource.collect] at inside
    rw [InsertSource.trace]
    exact (here.newline base).statement paints base body bound inside
  | values keyword rows tail =>
    obtain ⟨items, commas⟩ := rows
    rw [InsertSource.height] at bound
    simp only [InsertSource.collect, List.append_subset, List.cons_subset] at inside
    obtain ⟨⟨⟨-, insideItems⟩, -⟩, insideTail⟩ := inside
    have named : ∀ name ∈ (if sheet.style.addColumnNameComments then columns.map plainText else []),
        IsName sheet source name := by
      intro name member
      split at member
      · rename_i asked
        obtain ⟨item, isColumn, rfl⟩ := List.mem_map.1 member
        exact ⟨asked, item, rfl,
          List.Subset.trans (collectRun_subset_runs isColumn) insideColumns⟩
      · simp at member
    have head := (here.newline base).token base keyword
    unfold Sheet.insertSource
    simp only
    generalize (if sheet.style.addColumnNameComments then columns.map plainText else []) = names
      at named
    have shown : Drawn sheet source (traceRows items).marks
        (sheet.token base keyword (w.newline base))
        (Writer.each (fun place item v =>
          sheet.row painter base names item (if place = 0 then v else punct commaToken v)) 0 items
          (sheet.token base keyword (w.newline base))) := by
      cases items with
      | nil =>
        rw [traceRows]
        exact .start sheet source head.started
      | cons row rest =>
        rw [heightRuns] at bound
        rw [collectRuns, List.append_subset] at insideItems
        rw [traceRows, Trace.marks_append, marks_traceMoreRows, Writer.each]
        refine Drawn.each (drawn_row paints base names named row _ (by omega) insideItems.1
          head.started) _ _ 1 rest ?_
        intro place later next member v startedThere
        have small := heightRun_le_runs member
        have within := List.Subset.trans (collectRun_subset_runs member) insideItems.2
        have comma := (Drawn.start sheet source startedThere).comma
        rw [if_neg (show place ≠ 0 by omega)]
        exact comma.append
          (drawn_row paints base names named next _ (by omega) within comma.started)
    have rows := head.append shown
    rw [InsertSource.trace]
    cases tail with
    | none => simpa [traceTail] using rows
    | some branch =>
      obtain ⟨word, elements⟩ := branch
      rw [heightTail] at bound
      rw [collectTail, List.cons_subset] at insideTail
      have tailed := (rows.newline base).token base word
      have rest := tailed.append (drawn_looseRun paints base word elements _ (by omega)
        insideTail.2 tailed.started)
      have shownTail : (traceTail (some ⟨word, elements⟩)).marks = [.ofToken word] ++
          (if dropsRun word.contents then [] else (traceRun elements).marks) := by
        rw [traceTail]
        split <;> simp
      simpa [shownTail] using rest

theorem drawn_insert (paints : Paints sheet source height painter) (base : Nat) (keyword : Token)
    (target : List Element) (columns : Option Group) (rows : InsertSource) (w : Writer)
    (bound : (Form.insert keyword target columns rows).height < height)
    (inside : (Form.insert keyword target columns rows).collect ⊆ source) (ready : w.Ready base) :
    Drawn sheet source
      (.ofToken keyword :: (traceRun target).marks ++ (traceColumns columns).marks ++
        rows.trace.marks) w
      (sheet.insert painter base keyword target columns rows w) := by
  rw [Form.height] at bound
  simp only [Form.collect, List.append_subset, List.cons_subset] at inside
  obtain ⟨⟨⟨-, insideTarget⟩, insideColumns⟩, insideRows⟩ := inside
  have head : Drawn sheet source [.ofToken keyword] w (sheet.token base keyword w) :=
    .first base keyword fun nothing => (ready nothing).1
  have front := head.run paints {} (base + 7) target (by omega) insideTarget
  cases columns with
  | none =>
    have rest := front.append (drawn_insertSource paints base [] rows _ (by omega)
      (by simp [collectRuns]) insideRows front.started)
    simpa [traceColumns, Sheet.insert] using rest
  | some group =>
    rw [heightColumns, height_group] at bound
    rw [collectColumns, collect_group] at insideColumns
    have insideItems : collectRuns group.items ⊆ source := by
      grind
    have middle := front.append (drawn_tupleBlock paints base [] (by simp) group _ (by omega)
      insideItems front.started)
    have rest := middle.append (drawn_insertSource paints base group.items rows _ (by omega)
      insideItems insideRows middle.started)
    rw [traceColumns]
    exact rest

theorem draws_mergeAction (paints : Paints sheet source height painter) (base : Nat) (action : Form)
    (w : Writer) (bound : action.height < height) (inside : action.collect ⊆ source)
    (started : w.last ≠ none) :
    Draws sheet source action.traceAction.marks w (sheet.mergeAction painter base action w) := by
  have ready (v : Writer) (startedThere : v.last ≠ none) : v.Ready base :=
    Writer.ready_of_last startedThere base
  cases action with
  | update keyword target clauses =>
    rw [Form.height] at bound
    simp only [Form.collect, List.append_subset, List.cons_subset] at inside
    have whole := drawn_update paints base base keyword target clauses w (by omega) (by omega)
      inside.1.2 inside.2 (ready w started)
    simpa [Form.traceAction, Form.isAction, Form.trace, Sheet.mergeAction] using whole.draws
  | insert keyword target columns rows =>
    have line := (Drawn.start sheet source started).newline base
    have whole := line.append (drawn_insert paints base keyword target columns rows _ bound inside
      (ready _ line.started))
    simpa [Form.traceAction, Form.isAction, Form.trace, Sheet.mergeAction] using whole.draws
  | raw elements =>
    rw [Form.height] at bound
    rw [Form.collect] at inside
    have whole := paints.run {} base elements w bound inside (ready w started)
    simpa [Form.traceAction, Form.isAction, Form.trace, Sheet.mergeAction] using whole
  | query clauses => exact .done w
  | delete keyword target clauses => exact .done w
  | merge keyword target source branches => exact .done w
  | withQueries keyword modifiers definitions commas body => exact .done w
  | create keyword object columns rest => exact .done w
  | grant keyword privileges clauses => exact .done w

theorem drawn_merge (paints : Paints sheet source height painter) (base : Nat) (keyword : Token)
    (target : List Element) (table : MergeSource) (branches : List MergeBranch) (w : Writer)
    (bound : (Form.merge keyword target table branches).height < height)
    (inside : (Form.merge keyword target table branches).collect ⊆ source) (ready : w.Ready base) :
    Drawn sheet source (Form.merge keyword target table branches).trace.marks w
      (sheet.merge painter base keyword target table branches w) := by
  obtain ⟨usingWord, elements, conditions⟩ := table
  rw [Form.height] at bound
  simp only [Form.collect, List.cons_append, List.append_subset, List.cons_subset] at inside
  obtain ⟨-, ⟨⟨insideTarget, -, insideElements⟩, insideConditions⟩, insideBranches⟩ := inside
  have head : Drawn sheet source [.ofToken keyword] w (sheet.token base keyword w) :=
    .first base keyword fun nothing => (ready nothing).1
  have targeted := (head.run paints {} (base + 6) target (by omega) insideTarget).newline base
  have sourced := (targeted.token base usingWord).run paints { block := true } (base + 6) elements
    (by omega) insideElements
  have linked := sourced.append (drawn_joinConditions paints base (base + 5) conditions _
    (by omega) insideConditions sourced.started)
  have rest := linked.each
    (fun _ (branch : MergeBranch) v =>
      sheet.mergeAction painter (base + 2) branch.action
        (painter.run {} (base + 2) branch.head
          (sheet.token base branch.keyword (v.newline base))))
    (fun branch => .ofToken branch.keyword :: (traceRun branch.head).marks ++
      branch.action.traceAction.marks) 0 branches
    (by
      intro place later branch member v startedThere
      have small := heightMerge_le member
      have within := List.append_subset.1
        (List.Subset.trans (collectMerge_subset member) insideBranches)
      have words := (((Drawn.start sheet source startedThere).newline base).token base
        branch.keyword).run paints {} (base + 2) branch.head (by omega) within.1
      exact words.step (draws_mergeAction paints (base + 2) branch.action _ (by omega) within.2
        words.started))
  rw [← marks_traceMerge] at rest
  rw [Form.trace]
  exact rest

theorem drawn_inlineTuple (paints : Paints sheet source height painter) (indent : Nat)
    (group : Group) (w : Writer) (bound : heightRuns group.items < height)
    (inside : collectRuns group.items ⊆ source) :
    Drawn sheet source group.traceTuple.marks w (inlineTuple painter indent group w) := by
  have opened : Drawn sheet source [⟨group.opening, .parenOpen⟩] w (punct group.opening w.space) :=
    ⟨(Draws.space w).after (.opening group.opening w.space), by simp⟩
  have items := opened.append (drawn_items paints {} indent
    (fun place v => if place = 0 then v else (punct commaToken v).space) group.items _ bound
    inside opened.started
    (by
      intro v startedThere
      exact .start sheet source startedThere)
    (by
      intro place later v startedThere
      rw [if_neg later]
      exact (Drawn.start sheet source startedThere).comma.space))
  rw [trace_tuple]
  exact items.closed group.closing

theorem draws_definitionHead (paints : Paints sheet source height painter) (base : Nat)
    (head : List Element) (w : Writer) (bound : heightRun head < height)
    (inside : collectRun head ⊆ source) (ready : w.Ready base) :
    Draws sheet source (traceHead head).marks w (definitionHead painter base head w) := by
  rw [marks_traceHead]
  refine draws_each _ _ base head 0 w ready ?_
  intro place later element member v readyThere
  have small := height_le_of_mem element head member
  have within : collectRun [element] ⊆ source :=
    List.Subset.trans (collectRun_subset [element] head (by simpa using member)) inside
  have alone : Draws sheet source element.trace.marks v (painter.run {} base [element] v) := by
    have run := paints.run {} base [element] v (by simp [heightRun]; omega) within readyThere
    simpa [traceRun] using run
  cases element with
  | token token => exact alone
  | case inner => exact alone
  | group inner =>
    rw [Element.height, height_group] at small
    simp only [Element.traceHead]
    split
    · rw [collectRun_cons, Element.collect, collect_group] at within
      exact (drawn_inlineTuple paints base inner v (by omega) (by grind)).draws
    · rw [Element.trace] at alone
      exact alone

theorem draws_definition (paints : Paints sheet source height painter) (base : Nat)
    (definition : Definition) (w : Writer)
    (bound : heightDefinitions [definition] < height)
    (inside : collectDefinitions [definition] ⊆ source) (ready : w.Ready base) :
    Draws sheet source definition.trace.marks w (sheet.definition painter base definition w) := by
  obtain ⟨head, keyword, modifiers, query⟩ := definition
  simp only [heightDefinitions, height_group] at bound
  simp only [collectDefinitions, List.append_nil, List.append_subset, List.cons_subset] at inside
  obtain ⟨⟨insideHead, -, insideModifiers⟩, insideQuery⟩ := inside
  have front := draws_definitionHead paints base head w (by omega) insideHead ready
  have named : Drawn sheet source ((traceHead head).marks ++ [.ofToken keyword]) w
      (sheet.token base keyword (definitionHead painter base head w)) :=
    ⟨front.append (sheet.draws_token base keyword _ fun nothing =>
      ((front.ready ready) nothing).1), by simp⟩
  have middle := named.run paints {} base modifiers (by omega) insideModifiers
  unfold Sheet.definition
  simp only
  split
  · rename_i body isSubquery isBody
    have shown : query.trace.marks = [⟨query.opening, .parenOpen⟩] ++ body.trace.marks ++
        [⟨query.closing, .parenClose⟩] := by
      rw [trace_group, if_pos (by simp [isSubquery, isBody]), isBody, traceBody]
      rfl
    rw [isBody, heightBody] at bound
    rw [collect_group, isBody, collectBody] at insideQuery
    have inner := (((middle.newline base).opened query.opening).newline (base + 2)).statement
      paints (base + 2) body (by omega) (by grind)
    have last := (inner.newline base).closed query.closing
    simpa [Definition.trace, shown] using last.draws
  · have last := middle.run paints {} base [.group query]
      (by simp [heightRun, Element.height, height_group]; omega)
      (by simpa [collectRun, Element.collect] using insideQuery)
    simpa [Definition.trace, traceRun, Element.trace] using last.draws

theorem drawn_withQueries (paints : Paints sheet source height painter) (base : Nat)
    (keyword : Token) (modifiers : List Element) (definitions : List Definition)
    (commas : List Token) (body : Statement) (w : Writer)
    (bound : (Form.withQueries keyword modifiers definitions commas body).height < height)
    (inside : (Form.withQueries keyword modifiers definitions commas body).collect ⊆ source)
    (ready : w.Ready base) :
    Drawn sheet source (Form.withQueries keyword modifiers definitions commas body).trace.marks w
      (sheet.withQueries painter base keyword modifiers definitions body w) := by
  rw [Form.height] at bound
  simp only [Form.collect, List.append_subset, List.cons_subset] at inside
  obtain ⟨⟨⟨⟨-, insideModifiers⟩, insideDefinitions⟩, -⟩, insideBody⟩ := inside
  have head : Drawn sheet source [.ofToken keyword] w
      (sheet.token base keyword { w with broken := w.broken || w.inline }) :=
    ⟨(Draws.breaks w).after (sheet.draws_token base keyword _ fun nothing => (ready nothing).1),
      by simp⟩
  have front := head.run paints {} base modifiers (by omega) insideModifiers
  have small (definition : Definition) (member : definition ∈ definitions) :
      heightDefinitions [definition] < height ∧ collectDefinitions [definition] ⊆ source := by
    have part := heightDefinitions_le member
    exact ⟨by omega, List.Subset.trans (collectDefinitions_subset member) insideDefinitions⟩
  have listed : Drawn sheet source (traceDefinitions definitions).marks
      (painter.run {} base modifiers
        (sheet.token base keyword { w with broken := w.broken || w.inline }))
      (Writer.each (fun place definition v =>
        sheet.definition painter base definition
          (if place = 0 then v else (punct commaToken v).newline base)) 0 definitions
        (painter.run {} base modifiers
          (sheet.token base keyword { w with broken := w.broken || w.inline }))) := by
    cases definitions with
    | nil =>
      rw [traceDefinitions]
      exact .start sheet source front.started
    | cons definition rest =>
      rw [traceDefinitions, Trace.marks_append, marks_traceMoreDefinitions, Writer.each]
      obtain ⟨lower, within⟩ := small definition (by simp)
      have first := (Drawn.start sheet source front.started).step (draws_definition paints base
        definition _ lower within (Writer.ready_of_last front.started base))
      refine Drawn.each first _ _ 1 rest ?_
      intro place later next member v startedThere
      have comma := (Drawn.start sheet source startedThere).comma.newline base
      rw [if_neg (show place ≠ 0 by omega)]
      obtain ⟨lower, within⟩ := small next (List.mem_cons_of_mem definition member)
      exact comma.step (draws_definition paints base next _ lower within
        (Writer.ready_of_last comma.started base))
  have last := ((front.append listed).newline base).statement paints base body (by omega)
    insideBody
  rw [Form.trace]
  exact last

theorem drawn_columnRest (paints : Paints sheet source height painter) (base : Nat)
    (rest : List Element) (w : Writer) (bound : heightRun rest < height)
    (inside : collectRun rest ⊆ source) (started : w.last ≠ none) :
    Drawn sheet source (traceRun rest).marks w (sheet.columnRest painter base rest w) := by
  have here := Drawn.start sheet source started
  unfold columnRest
  split
  · rename_i word others
    split
    · rename_i isWord
      rw [heightRun] at bound
      rw [collectRun_cons, List.append_subset] at inside
      have type := here.step (sheet.draws_typeWord word w isWord)
      have last := type.run paints {} (base + 4) others (by omega) inside.2
      simpa [traceRun, Element.trace] using last
    · exact here.run paints {} (base + 4) _ bound inside
  · exact here.run paints {} (base + 4) rest bound inside

theorem drawn_column (paints : Paints sheet source height painter) (base width : Nat)
    (item : List Element) (w : Writer) (started : w.last ≠ none) :
    heightRun item < height → collectRun item ⊆ source → Drawn sheet source (traceRun item).marks w
      (match item with
        | .token name :: rest =>
          if name.kind.isName then
            sheet.columnRest painter base rest
              ((sheet.token (base + 2) name (w.newline (base + 2))).padTo (base + 2 + width + 3))
          else painter.run {} (base + 4) item (w.newline (base + 2))
        | _ => painter.run {} (base + 4) item (w.newline (base + 2))) := by
  intro bound inside
  have line := (Drawn.start sheet source started).newline (base + 2)
  split
  · rename_i name rest
    split
    · rw [heightRun] at bound
      rw [collectRun_cons, List.append_subset] at inside
      have named := (line.token (base + 2) name).padTo (base + 2 + width + 3)
      have last := named.append (drawn_columnRest paints base rest _ (by omega) inside.2
        named.started)
      simpa [traceRun, Element.trace] using last
    · exact line.run paints {} (base + 4) _ bound inside
  · exact line.run paints {} (base + 4) item bound inside

theorem drawn_followed (draw : List Element → Writer → Writer) (count : Nat)
    (items : List (List Element)) (index : Nat) (w : Writer) (started : w.last ≠ none)
    (counted : index + items.length = count)
    (entry : ∀ item ∈ items, ∀ v : Writer, v.last ≠ none →
      Drawn sheet source (traceRun item).marks v (draw item v)) :
    Drawn sheet source (traceItems items).marks w
      (Writer.each (fun place item v =>
        if place + 1 < count then punct commaToken (draw item v) else draw item v) index
        items w) := by
  induction items generalizing index w with
  | nil =>
    rw [traceItems]
    exact .start sheet source started
  | cons item rest ih =>
    have first := entry item (by simp) w started
    rw [traceItems, Trace.marks_append, Writer.each]
    cases rest with
    | nil =>
      rw [if_neg (by simp at counted; omega), traceMore]
      exact first.append (.start sheet source first.started)
    | cons next others =>
      rw [if_pos (by simp at counted; omega)]
      have tail := ih (index + 1) _ first.comma.started (by simp at counted ⊢; omega)
        (fun other member => entry other (List.mem_cons_of_mem item member))
      have whole := first.comma.append tail
      simpa [traceItems, traceMore, commaMark] using whole

theorem drawn_tableColumns (paints : Paints sheet source height painter) (base : Nat)
    (group : Group) (w : Writer) (bound : heightRuns group.items < height)
    (inside : collectRuns group.items ⊆ source) (started : w.last ≠ none) :
    Drawn sheet source group.traceTuple.marks w (sheet.tableColumns painter base group w) := by
  have opened := ((Drawn.start sheet source started).newline base).opened group.opening
  have items := opened.append (drawn_followed
    (fun item v => match item with
      | .token name :: rest =>
        if name.kind.isName then
          sheet.columnRest painter base rest
            ((sheet.token (base + 2) name (v.newline (base + 2))).padTo
              (base + 2 + nameWidth group.items + 3))
        else painter.run {} (base + 4) item (v.newline (base + 2))
      | _ => painter.run {} (base + 4) item (v.newline (base + 2)))
    group.items.length group.items 0 _ opened.started (by simp)
    (by
      intro item member v startedThere
      have small := heightRun_le_runs member
      have within := List.Subset.trans (collectRun_subset_runs member) inside
      exact drawn_column paints base (nameWidth group.items) item v startedThere (by omega)
        within))
  rw [trace_tuple]
  exact (items.newline base).closed group.closing

theorem drawn_createColumns (paints : Paints sheet source height painter) (base : Nat)
    (object : List Element) (columns : Option Group) (w : Writer) (started : w.last ≠ none) :
    heightColumns columns < height → collectColumns columns ⊆ source →
    Drawn sheet source (traceColumns columns).marks w
      (match columns with
        | none => w
        | some group =>
          if object.any (Element.isKeyword ["TABLE"]) then sheet.tableColumns painter base group w
          else inlineTuple painter base group w) := by
  intro bound inside
  cases columns with
  | none =>
    rw [traceColumns]
    exact .start sheet source started
  | some group =>
    rw [heightColumns, height_group] at bound
    rw [collectColumns, collect_group] at inside
    have within : collectRuns group.items ⊆ source := by
      grind
    rw [traceColumns]
    simp only
    split
    · exact drawn_tableColumns paints base group _ (by omega) within started
    · exact drawn_inlineTuple paints base group _ (by omega) within

theorem drawn_create (paints : Paints sheet source height painter) (base : Nat) (keyword : Token)
    (object : List Element) (columns : Option Group) (rest : CreateRest) (w : Writer)
    (bound : (Form.create keyword object columns rest).height < height)
    (inside : (Form.create keyword object columns rest).collect ⊆ source) (ready : w.Ready base) :
    Drawn sheet source (Form.create keyword object columns rest).trace.marks w
      (sheet.create painter base keyword object columns rest w) := by
  rw [Form.height] at bound
  simp only [Form.collect, List.append_subset, List.cons_subset] at inside
  obtain ⟨⟨⟨-, insideObject⟩, insideColumns⟩, insideRest⟩ := inside
  have head : Drawn sheet source [.ofToken keyword] w (sheet.token base keyword w) :=
    .first base keyword fun nothing => (ready nothing).1
  have front := head.run paints {} base object (by omega) insideObject
  have middle := front.append (drawn_createColumns paints base object columns _ front.started
    (by omega) insideColumns)
  rw [Form.trace]
  cases rest with
  | nothing =>
    rw [CreateRest.trace, Trace.append_empty]
    exact middle
  | query word body =>
    rw [CreateRest.height] at bound
    rw [CreateRest.collect, List.cons_subset] at insideRest
    have last := (((middle.newline base).token base word).newline base).statement paints base body
      (by omega) insideRest.2
    rw [CreateRest.trace, ← Trace.append_assoc]
    exact last
  | run elements =>
    rw [CreateRest.height] at bound
    rw [CreateRest.collect] at insideRest
    rw [CreateRest.trace]
    exact middle.run paints {} base elements (by omega) insideRest

theorem drawn_grant (paints : Paints sheet source height painter) (base : Nat) (keyword : Token)
    (privileges : List Element) (clauses : List (Branch Element)) (w : Writer)
    (bound : (Form.grant keyword privileges clauses).height < height)
    (inside : (Form.grant keyword privileges clauses).collect ⊆ source) (ready : w.Ready base) :
    Drawn sheet source (Form.grant keyword privileges clauses).trace.marks w
      (sheet.grant painter base keyword privileges clauses w) := by
  rw [Form.height] at bound
  simp only [Form.collect, List.append_subset, List.cons_subset] at inside
  have head : Drawn sheet source [.ofToken keyword] w (sheet.token base keyword w) :=
    .first base keyword fun nothing => (ready nothing).1
  have front := head.run paints {} (base + 2) privileges (by omega) inside.1.2
  have rest := front.append (drawn_branches paints (base + 2) (fun _ => base + 4) clauses _
    (by omega) inside.2 front.started)
  rw [Form.trace]
  exact rest

theorem draws_form (paints : Paints sheet source height painter) (base : Nat) (form : Form)
    (w : Writer) (bound : form.height < height) (inside : form.collect ⊆ source)
    (ready : w.Ready base) :
    Draws sheet source form.trace.marks w (sheet.form painter base form w) := by
  cases form with
  | query clauses =>
    rw [Form.height] at bound
    rw [Form.collect] at inside
    rw [Form.trace]
    exact draws_clauses paints base clauses w bound inside ready
  | insert keyword target columns rows =>
    rw [Form.trace]
    exact (drawn_insert paints base keyword target columns rows w bound inside ready).draws
  | update keyword target clauses =>
    rw [Form.height] at bound
    simp only [Form.collect, List.append_subset, List.cons_subset] at inside
    rw [Form.trace]
    exact (drawn_update paints base (base + 3) keyword target clauses w (by omega) (by omega)
      inside.1.2 inside.2 ready).draws
  | delete keyword target clauses =>
    rw [Form.height] at bound
    simp only [Form.collect, List.append_subset, List.cons_subset] at inside
    rw [Form.trace]
    exact (drawn_delete paints base keyword target clauses w (by omega) (by omega) inside.1.2
      inside.2 ready).draws
  | merge keyword target table branches =>
    exact (drawn_merge paints base keyword target table branches w bound inside ready).draws
  | withQueries keyword modifiers definitions commas body =>
    exact (drawn_withQueries paints base keyword modifiers definitions commas body w bound inside
      ready).draws
  | create keyword object columns rest =>
    exact (drawn_create paints base keyword object columns rest w bound inside ready).draws
  | grant keyword privileges clauses =>
    exact (drawn_grant paints base keyword privileges clauses w bound inside ready).draws
  | raw elements =>
    rw [Form.height] at bound
    rw [Form.collect] at inside
    rw [Form.trace]
    exact paints.run {} base elements w bound inside ready

theorem draws_statement (paints : Paints sheet source height painter) (base : Nat)
    (statement : Statement) (w : Writer) (bound : statement.height ≤ height)
    (inside : statement.collect ⊆ source) (ready : w.Ready base) :
    Draws sheet source statement.trace.marks w (sheet.statement painter base statement w) := by
  obtain ⟨leading, form, trailing⟩ := statement
  rw [Statement.height] at bound
  simp only [Statement.collect, List.append_subset] at inside
  have comment (token : Token) (v : Writer) (readyThere : v.Ready base) :
      Draws sheet source [⟨token, .comment⟩] v (sheet.comment base token v) :=
    .comment base ⟨token, .comment⟩ v (.inl rfl) fun nothing => (readyThere nothing).1
  have listed (tokens : List Token) :
      tokens.map (fun token => (⟨token, .comment⟩ : Mark)) =
        tokens.flatMap fun token => [⟨token, .comment⟩] :=
    List.map_eq_flatMap
  have before := draws_each (fun _ token v => (sheet.comment base token v).newline base)
    (fun token => [⟨token, .comment⟩]) base leading 0 w ready
    (by
      intro place later token member v readyThere
      exact (comment token v readyThere).before (.newline base _ (by simp)))
  have middle := before.append (draws_form paints base form _ (by omega) inside.1.2
    (before.ready ready))
  have whole := middle.append (draws_each (fun _ token v => sheet.comment base token v)
    (fun token => [⟨token, .comment⟩]) base trailing 0 _ (middle.ready ready)
    (by
      intro place later token member v readyThere
      exact comment token v readyThere))
  rw [Statement.trace]
  simp only [Trace.marks_append, Trace.marks_comments, listed]
  exact whole

theorem paints_painter (sheet : Sheet) (source : List Token) (height : Nat) :
    Paints sheet source height (sheet.painter height) := by
  induction height with
  | zero =>
    constructor
    · intro mode indent elements w bound
      omega
    · intro base body w bound
      omega
  | succ height ih =>
    constructor
    · intro mode indent elements w bound inside ready
      exact draws_run ih mode indent false elements w (by omega) inside ready
    · intro base body w bound inside ready
      exact draws_statement ih base body w (by omega) inside ready

def finished (sheet : Sheet) (statement : Statement) : Writer :=
  (sheet.painter (statement.height + 1)).statement 0 statement {}

/-- A statement is drawn as its trace says. -/
theorem draws_finished (sheet : Sheet) (statement : Statement) :
    Draws sheet statement.collect statement.trace.marks {} (sheet.finished statement) :=
  (paints_painter sheet statement.collect (statement.height + 1)).statement 0 statement {}
    (by omega) (List.Subset.refl _) fun _ => ⟨rfl, rfl⟩

end Sheet

end SqlLayout.Layout
