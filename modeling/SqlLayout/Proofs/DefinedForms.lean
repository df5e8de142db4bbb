import SqlLayout.Proofs.Defined

/-! Clauses and statements are drawn with every step checked as they are drawn without. Each
kind of statement has the fields that its drawing asks for, and a list is wrapped after one
entry at least, so nothing is divided by zero. -/
namespace SqlLayout

structure Style.Wraps (style : Style) : Prop where
  select : 1 ≤ style.maxColumnsSelect
  insert : 1 ≤ style.maxColumnsInsert
  update : 1 ≤ style.maxColumnsUpdate

namespace Tree

inductive CutAs (word : String) : ClauseBody Element → Prop where
  | projection (modifiers : List Element) (items : List (List Element)) (commas : List Token)
      (isSelect : word = "SELECT") : CutAs word (.projection modifiers ⟨items, commas⟩)
  | sources (items : List (List Element)) (commas : List Token) (joins : List (Join Element))
      (isFrom : word = "FROM") : CutAs word (.sources ⟨items, commas⟩ joins)
  | predicate (conditions : List (Condition Element)) (others : word ≠ "SELECT" ∧ word ≠ "FROM")
      (holds : predicateClauses.contains word = true) : CutAs word (.predicate conditions)
  | list (items : List (List Element)) (commas : List Token)
      (others : word ≠ "SELECT" ∧ word ≠ "FROM" ∧ predicateClauses.contains word = false)
      (holds : orderingClauses.contains word = true ∨ word = "SET") :
      CutAs word (.list ⟨items, commas⟩)
  | run (elements : List Element)
      (others : word ≠ "SELECT" ∧ word ≠ "FROM" ∧ predicateClauses.contains word = false ∧
        orderingClauses.contains word = false ∧ word ≠ "SET") : CutAs word (.run elements)

theorem cutAs_clauseBody (word : String) (elements : List Element) :
    CutAs word (clauseBody (some word) elements) := by
  unfold clauseBody
  simp only
  by_cases isSelect : word = "SELECT"
  · rw [if_pos isSelect]
    exact .projection _ _ _ isSelect
  rw [if_neg isSelect]
  by_cases isFrom : word = "FROM"
  · rw [if_pos isFrom]
    exact .sources _ _ _ isFrom
  rw [if_neg isFrom]
  by_cases holds : predicateClauses.contains word = true
  · rw [if_pos holds]
    exact .predicate _ ⟨isSelect, isFrom⟩ holds
  rw [if_neg holds]
  by_cases lists : (orderingClauses.contains word || decide (word = "SET")) = true
  · rw [if_pos lists]
    exact .list _ _ ⟨isSelect, isFrom, by simpa using holds⟩ (by simpa using lists)
  · rw [if_neg lists]
    simp only [Bool.or_eq_true, decide_eq_true_eq, not_or, Bool.not_eq_true] at lists
    exact .run _ ⟨isSelect, isFrom, by simpa using holds, lists.1, lists.2⟩

theorem CutAs.list_of_set {body : ClauseBody Element} (cut : CutAs "SET" body) :
    ∃ items commas, body = .list ⟨items, commas⟩ := by
  cases cut with
  | projection _ _ _ isSelect => exact absurd isSelect (by decide)
  | sources _ _ _ isFrom => exact absurd isFrom (by decide)
  | predicate _ _ holds => exact absurd holds (by decide)
  | list items commas => exact ⟨items, commas, rfl⟩
  | run _ others => exact absurd rfl others.2.2.2.2

theorem Clause.node_keyword (one : Clause Element) : one.node.keyword = one.keyword := by
  obtain ⟨keyword, body⟩ := one
  cases body <;> rfl

end Tree

namespace Layout.Checked

open SqlLayout.Tree SqlLayout.Style

variable {sheet : Sheet} {height : Nat} {checked : Painter} {painter : Layout.Painter}
  {parens : List Role} {w : Writer}

theorem each_from {α : Type} (draw : α → Writer → Except Undefined Writer) (index other : Nat)
    (entries : List α) (v : Writer) :
    each (fun _ => draw) index entries v = each (fun _ => draw) other entries v := by
  induction entries generalizing index other v with
  | nil => rfl
  | cons entry rest ih =>
    rw [each, each]
    exact congrArg _ (funext fun u => ih (index + 1) (other + 1) u)

theorem listComma_eq (indent threshold index : Nat) (v : Writer) (positive : 1 ≤ threshold) :
    listComma sheet indent threshold index v =
      .ok (sheet.listComma indent threshold index v) := by
  unfold listComma Sheet.listComma remainder
  rw [if_neg (show threshold ≠ 0 by omega)]
  split
  · rfl
  · rfl

theorem gives_items (follows : Follows height checked painter) (same : w.parens = parens)
    (mode : RunMode) (indent : Nat) (separate : Nat → Writer → Writer)
    (keeps : ∀ place v, (separate place v).parens = v.parens) (items : List (List Element))
    (filled : ∀ item ∈ items, ∀ element ∈ item, element.Filled)
    (bound : heightRuns items < height) :
    Gives parens
      (each (fun place item v => checked.run mode indent item (separate place v)) 0
        (partsOfRuns items) w)
      (Writer.each (fun place item v => painter.run mode indent item (separate place v)) 0
        items w) := by
  rw [partsOfRuns_eq_map]
  refine .each partsOf 0 items same fun place item member v sameThere => ?_
  have small := heightRun_le_runs member
  exact follows.draws ((keeps place v).trans sameThere) mode indent item (filled item member)
    (by omega)

theorem gives_itemList (follows : Follows height checked painter) (same : w.parens = parens)
    (indent threshold : Nat) (positive : 1 ≤ threshold) (items : List (List Element))
    (filled : ∀ item ∈ items, ∀ element ∈ item, element.Filled)
    (bound : heightRuns items < height) :
    Gives parens (itemList sheet checked indent threshold (partsOfRuns items) w)
      (sheet.itemList painter indent threshold items w) := by
  unfold itemList
  simp only [listComma_eq _ _ _ _ positive]
  exact gives_items follows same {} indent (sheet.listComma indent threshold) (by simp) items
    filled bound

theorem gives_conditions (follows : Follows height checked painter) (same : w.parens = parens)
    (indent : Nat) (connect : Nat → Token → Writer → Writer)
    (keeps : ∀ place connector v, (connect place connector v).parens = v.parens)
    (conditions : List (Condition Element))
    (filled : ∀ condition ∈ conditions, ∀ element ∈ condition.elements, element.Filled)
    (bound : heightConditions conditions < height) :
    Gives parens
      (each (fun place (condition : Condition Part) v =>
        checked.run {} indent condition.elements
          (match condition.connector with
            | none => v
            | some connector => connect place connector v)) 0 (partsOfConditions conditions) w)
      (Writer.each (fun place condition v =>
        painter.run {} indent condition.elements
          (match condition.connector with
            | none => v
            | some connector => connect place connector v)) 0 conditions w) := by
  rw [partsOfConditions_eq_map]
  refine .each Condition.parts 0 conditions same fun place condition member v sameThere => ?_
  have small := heightRun_le_conditions member
  refine follows.draws ?_ {} indent condition.elements (filled condition member) (by omega)
  split
  · exact sameThere
  · exact (keeps _ _ v).trans sameThere

theorem gives_joinConditions (follows : Follows height checked painter) (same : w.parens = parens)
    (indent keywordEnd : Nat) (conditions : List (Condition Element))
    (filled : ∀ condition ∈ conditions, ∀ element ∈ condition.elements, element.Filled)
    (bound : heightConditions conditions < height) :
    Gives parens (joinConditions sheet checked indent keywordEnd (partsOfConditions conditions) w)
      (sheet.joinConditions painter indent keywordEnd conditions w) := by
  unfold joinConditions
  have length : (partsOfConditions conditions).length = conditions.length := by
    rw [partsOfConditions_eq_map, List.length_map]
  rw [length]
  refine gives_conditions follows same (keywordEnd + 1)
    (fun _ connector v => sheet.token indent connector
      (if sheet.style.joinWrapStyle.wraps conditions.length then
        v.newline (max (keywordEnd - connector.contents.length) indent) else v))
    (fun _ connector v => ?_) conditions filled bound
  split <;> simp

theorem gives_predicates (follows : Follows height checked painter) (same : w.parens = parens)
    (base width : Nat) (conditions : List (Condition Element))
    (filled : ∀ condition ∈ conditions, ∀ element ∈ condition.elements, element.Filled)
    (bound : heightConditions conditions < height) :
    Gives parens (predicates sheet checked base width (partsOfConditions conditions) w)
      (sheet.predicates painter base width conditions w) := by
  refine gives_conditions follows same (base + width + 1)
    (fun place connector v =>
      if place = 0 then sheet.token base connector v
      else if sheet.style.indentWhereConditions then
        sheet.token base connector (v.newline (base + (width - connector.contents.length)))
      else (sheet.token base connector (v.newline base)).padTo (base + width + 1))
    (fun place connector v => ?_) conditions filled bound
  split
  · simp
  split <;> simp

theorem gives_joined (follows : Follows height checked painter) (same : w.parens = parens)
    (mode : RunMode) (source indent keywordEnd : Nat) (node : Node) (elements : List Element)
    (conditions : List (Condition Element)) (hasSource : node.items = [partsOf elements])
    (hasConditions : node.conditions = partsOfConditions conditions)
    (filled : ∀ element ∈ elements, element.Filled) (bound : heightRun elements < height)
    (filledThere : ∀ condition ∈ conditions, ∀ element ∈ condition.elements, element.Filled)
    (boundThere : heightConditions conditions < height) :
    Gives parens (joined sheet checked mode source indent keywordEnd node w)
      (sheet.joinConditions painter indent keywordEnd conditions
        (painter.run mode source elements w)) := by
  unfold joined
  rw [hasSource, hasConditions]
  refine (follows.draws same mode source elements filled bound).bind fun kept => ?_
  cases conditions with
  | nil => exact .ok kept
  | cons first rest =>
    exact gives_joinConditions follows kept indent keywordEnd (first :: rest) filledThere boundThere

theorem gives_join (follows : Follows height checked painter) (same : w.parens = parens)
    (indent : Nat) (one : Join Element) (filled : ∀ element ∈ one.members, element.Filled)
    (bound : heightJoins [one] < height) :
    Gives parens (join sheet checked indent one.node w) (sheet.join painter indent one w) := by
  simp only [heightJoins] at bound
  simp only [Join.members, List.forall_mem_append, List.forall_mem_flatMap] at filled
  obtain ⟨⟨source, conditions⟩, columns⟩ := filled
  unfold join Sheet.join
  refine (gives_joined follows (by simpa) _ _ _ _ one.node one.source one.conditions rfl rfl source
    (by omega) conditions (by omega)).bind fun kept => ?_
  exact follows.draws kept {} (indent + 2) one.columns columns (by omega)

theorem gives_sources (follows : Follows height checked painter) (same : w.parens = parens)
    (base : Nat) (node : Node) (tables : List (List Element)) (joins : List (Join Element))
    (hasTables : node.items = partsOfRuns tables) (hasJoins : node.children = nodesOfJoins joins)
    (filled : ∀ table ∈ tables, ∀ element ∈ table, element.Filled)
    (filledThere : ∀ one ∈ joins, ∀ element ∈ one.members, element.Filled)
    (bound : heightRuns tables < height) (boundThere : heightJoins joins < height) :
    Gives parens (sources sheet checked base node w)
      (sheet.sources painter base tables joins w) := by
  unfold sources
  rw [hasTables, hasJoins, nodesOfJoins_eq_map]
  refine (gives_items follows same { block := sheet.style.newLineForSubselects } (base + 5)
    (fun place v => if place = 0 then v else (Sheet.punct commaToken v).newline (base + 5))
    (fun place v => by split <;> simp) tables filled bound).bind fun kept => ?_
  refine .each Join.node 0 joins kept fun place one member v sameThere => ?_
  have small := heightJoins_le member
  exact gives_join follows (by simpa) (base + 2) one (filledThere one member) (by omega)

/-- A clause whose run has not been cut. Where items or conditions are asked for there are
none. -/
theorem gives_looseRun (follows : Follows height checked painter) (same : w.parens = parens)
    (base : Nat) (keyword : Token) (elements : List Element) (other : keyword.contents ≠ "VALUES")
    (filled : ∀ element ∈ elements, element.Filled) (bound : heightRun elements < height) :
    Gives parens
      (clause sheet checked base
        { kind := .clause, keyword := some keyword, elements := partsOf elements } w)
      (sheet.looseRun painter base keyword elements (sheet.token base keyword w)) := by
  have word : (sheet.token base keyword w).parens = parens := by simpa
  have isEmpty : (partsOf elements).isEmpty = elements.isEmpty := by cases elements <;> rfl
  unfold clause Sheet.looseRun
  simp only [other, decide_false, Bool.or_false]
  by_cases isSelect : keyword.contents = "SELECT"
  · rw [if_pos isSelect, if_pos isSelect]
    exact (follows.draws word {} base elements filled bound).bind fun kept => .ok (by simpa)
  rw [if_neg isSelect, if_neg isSelect]
  by_cases isFrom : keyword.contents = "FROM"
  · simp only [isFrom, if_true, decide_true, Bool.true_or]
    exact .ok word
  by_cases holds : predicateClauses.contains keyword.contents = true
  · simp only [isFrom, if_false, decide_false, Bool.false_or, holds, if_true]
    exact .ok word
  simp only [isFrom, if_false, decide_false, Bool.false_or, holds, Bool.false_eq_true]
  by_cases ordering : orderingClauses.contains keyword.contents = true
  · simp only [ordering, if_true, Bool.true_or]
    exact .ok (by simpa)
  by_cases isSet : keyword.contents = "SET"
  · have apart : orderingClauses.contains "SET" = false := by decide
    simp only [isSet, apart, if_true, decide_true, Bool.or_true, Bool.false_eq_true, if_false]
    exact .ok (by simpa)
  simp only [ordering, isSet, if_false, decide_false, Bool.or_false, Bool.false_eq_true, isEmpty]
  split
  · split
    · exact .ok word
    · exact follows.draws (by simpa) {} base elements filled bound
  · exact follows.draws word {} _ elements filled bound

theorem gives_clause (wraps : sheet.style.Wraps) (follows : Follows height checked painter)
    (same : w.parens = parens) (base : Nat) (one : Clause Element) (shaped : one.Shaped)
    (filled : ∀ element ∈ one.body.members, element.Filled)
    (bound : heightClause one.body < height) :
    Gives parens (clause sheet checked base one.node w) (sheet.clause painter base one w) := by
  obtain ⟨keyword, body⟩ := one
  obtain ⟨⟨elements, cut⟩, noRows⟩ := shaped
  cases keyword with
  | none =>
    obtain rfl : body = .run elements := cut
    rw [heightClause] at bound
    exact follows.draws same {} base elements filled bound
  | some keyword =>
    have isCut := cutAs_clauseBody keyword.contents elements
    rw [← show body = clauseBody (some keyword.contents) elements from cut] at isCut
    have word : (sheet.token base keyword w).parens = parens := by simpa
    have other : keyword.contents ≠ "VALUES" := noRows keyword rfl
    rw [Clause.node, clause, Sheet.clause]
    cases isCut with
    | projection modifiers items commas isSelect =>
      rw [heightClause] at bound
      simp only [ClauseBody.members, List.forall_mem_append, List.forall_mem_flatten] at filled
      simp only [nodeOfClause, if_pos isSelect]
      refine (follows.draws word {} base modifiers filled.1 (by omega)).bind fun kept => ?_
      exact gives_itemList follows (by simpa) _ _ wraps.select items filled.2 (by omega)
    | sources items commas joins isFrom =>
      rw [heightClause] at bound
      simp only [ClauseBody.members, List.forall_mem_append, List.forall_mem_flatten,
        List.forall_mem_flatMap] at filled
      have notSelect : keyword.contents ≠ "SELECT" := by
        rw [isFrom]
        decide
      simp only [nodeOfClause, if_neg notSelect, if_pos isFrom]
      exact gives_sources follows word base _ items joins rfl rfl filled.1 filled.2 (by omega)
        (by omega)
    | predicate conditions others holds =>
      rw [heightClause] at bound
      simp only [ClauseBody.members, List.forall_mem_flatMap] at filled
      simp only [nodeOfClause, if_neg others.1, if_neg others.2, if_pos holds]
      exact gives_predicates follows word base _ conditions filled bound
    | list items commas others holds =>
      rw [heightClause] at bound
      simp only [ClauseBody.members, List.forall_mem_flatten] at filled
      simp only [nodeOfClause, if_neg others.1, if_neg others.2.1, others.2.2, Bool.false_eq_true,
        if_false]
      by_cases ordering : orderingClauses.contains keyword.contents = true
      · have notSet : keyword.contents ≠ "SET" := by
          intro isSet
          rw [isSet] at ordering
          exact absurd ordering (by decide)
        rw [if_pos ordering, if_neg notSet]
        exact gives_itemList follows (by simpa) _ _ wraps.update items filled bound
      · have isSet : keyword.contents = "SET" := holds.resolve_left ordering
        rw [if_neg ordering, if_pos isSet, if_pos isSet]
        exact gives_itemList follows (by simpa) _ _ wraps.update items filled bound
    | run elements others =>
      rw [heightClause] at bound
      exact gives_looseRun follows same base keyword elements other filled bound

theorem gives_clauses (wraps : sheet.style.Wraps) (follows : Follows height checked painter)
    (same : w.parens = parens) (base : Nat) (place : Nat → Writer → Writer)
    (keeps : ∀ index v, (place index v).parens = v.parens) (many : List (Clause Element))
    (shaped : ∀ one ∈ many, one.Shaped)
    (filled : ∀ one ∈ many, ∀ element ∈ one.body.members, element.Filled)
    (bound : heightClauses many < height) :
    Gives parens
      (each (fun index node v => clause sheet checked base node (place index v)) 0
        (nodesOfClauses many) w)
      (Writer.each (fun index one v => sheet.clause painter base one (place index v)) 0
        many w) := by
  rw [nodesOfClauses_eq_map]
  refine .each Clause.node 0 many same fun index one member v sameThere => ?_
  have small := heightClause_le member
  exact gives_clause wraps follows ((keeps index v).trans sameThere) base one (shaped one member)
    (filled one member) (by omega)

theorem gives_head (follows : Follows height checked painter) (same : w.parens = parens)
    (base indent : Nat) (node : Node) (keyword : Token) (target : List Element)
    (hasKeyword : node.keyword = some keyword) (hasTarget : node.elements = partsOf target)
    (filled : ∀ element ∈ target, element.Filled) (bound : heightRun target < height)
    {rest : Writer → Except Undefined Writer} {v : Writer}
    (next : ∀ u, u.parens = parens →
      u = painter.run {} indent target (sheet.token base keyword w) → Gives parens (rest u) v) :
    Gives parens (do
      let keyword ← Undefined.need .noKeyword node.keyword
      let u ← checked.run {} indent node.elements (sheet.token base keyword w)
      rest u) v := by
  rw [hasKeyword, hasTarget]
  exact (follows.draws (by simpa) {} indent target filled bound).bind fun kept => next _ kept rfl

theorem gives_update (wraps : sheet.style.Wraps) (follows : Follows height checked painter)
    (same : w.parens = parens) (base setIndent : Nat) (node : Node) (keyword : Token)
    (target : List Element) (many : List (Clause Element)) (hasKeyword : node.keyword = some keyword)
    (hasTarget : node.elements = partsOf target) (hasClauses : node.children = nodesOfClauses many)
    (targets : ∀ element ∈ target, element.Filled) (shaped : ∀ one ∈ many, one.Shaped)
    (filled : ∀ one ∈ many, ∀ element ∈ one.body.members, element.Filled)
    (bound : heightRun target < height) (bounds : heightClauses many < height) :
    Gives parens (update sheet checked base setIndent node w)
      (sheet.update painter base setIndent keyword target many w) := by
  refine gives_head follows same base (base + 7) node keyword target hasKeyword hasTarget targets
    bound fun v kept start => ?_
  unfold Sheet.update
  simp only [← start]
  rw [hasClauses, nodesOfClauses_eq_map]
  refine .each Clause.node 0 many kept fun place one member u sameThere => ?_
  have small := heightClause_le member
  have other := gives_clause (w := u.newline base) wraps follows (by simpa) base one
    (shaped one member) (filled one member) (by omega)
  obtain ⟨⟨elements, cut⟩, -⟩ := shaped one member
  rw [Clause.node_keyword]
  obtain ⟨given, body⟩ := one
  cases given with
  | none => exact other
  | some word =>
    simp only
    by_cases isSet : word.contents = "SET"
    · have isCut := cutAs_clauseBody word.contents elements
      rw [← show body = clauseBody (some word.contents) elements from cut, isSet] at isCut
      obtain ⟨items, commas, rfl⟩ := isCut.list_of_set
      rw [heightClause] at small
      have held := filled _ member
      simp only [ClauseBody.members, List.forall_mem_flatten] at held
      rw [if_pos isSet]
      simp only [if_pos isSet]
      exact gives_itemList follows (by simpa) (setIndent + 4) _ wraps.update items held (by omega)
    · rw [if_neg isSet]
      cases body with
      | list entries =>
        simp only [if_neg isSet]
        exact other
      | _ => exact other

theorem gives_delete (wraps : sheet.style.Wraps) (follows : Follows height checked painter)
    (same : w.parens = parens) (base : Nat) (node : Node) (keyword : Token)
    (target : List Element) (many : List (Clause Element)) (hasKeyword : node.keyword = some keyword)
    (hasTarget : node.elements = partsOf target) (hasClauses : node.children = nodesOfClauses many)
    (targets : ∀ element ∈ target, element.Filled) (shaped : ∀ one ∈ many, one.Shaped)
    (filled : ∀ one ∈ many, ∀ element ∈ one.body.members, element.Filled)
    (bound : heightRun target < height) (bounds : heightClauses many < height) :
    Gives parens (delete sheet checked base node w)
      (sheet.delete painter base keyword target many w) := by
  refine gives_head follows same base (base + 7) node keyword target hasKeyword hasTarget targets
    bound fun v kept start => ?_
  unfold Sheet.delete
  simp only [← start]
  rw [hasClauses]
  exact gives_clauses wraps follows kept base (fun _ u => u.newline base) (by simp) many shaped
    filled bounds

/-- A comment in a value is left out of its run or not, but nothing is put into it. -/
theorem columnComment_partsOf (names : List String) (index : Nat) (item : List Element)
    (v : Writer) :
    columnComment names index (partsOf item) v =
        (partsOf (Layout.Sheet.columnComment names index item v).1,
          (Layout.Sheet.columnComment names index item v).2) ∧
      (Layout.Sheet.columnComment names index item v).1 ⊆ item ∧
      (Layout.Sheet.columnComment names index item v).2.parens = v.parens := by
  unfold columnComment Layout.Sheet.columnComment
  cases names[index]? with
  | none => exact ⟨rfl, List.Subset.refl _, rfl⟩
  | some name =>
    have kept : ((v.write ("/* " ++ name ++ " */")).space.markAs openToken).parens = v.parens := by
      simp
    match item with
    | [] => exact ⟨rfl, List.Subset.refl _, kept⟩
    | .token first :: rest =>
      simp only [partsOf, Element.part]
      split
      · exact ⟨rfl, List.subset_cons_self _ _, kept⟩
      · exact ⟨rfl, List.Subset.refl _, kept⟩
    | .group _ :: _ => exact ⟨rfl, List.Subset.refl _, kept⟩
    | .case _ :: _ => exact ⟨rfl, List.Subset.refl _, kept⟩

theorem gives_named (follows : Follows height checked painter) {v : Writer}
    (same : v.parens = parens) (indent : Nat) (names : List String) (index : Nat)
    (item : List Element) (filled : ∀ element ∈ item, element.Filled)
    (bound : heightRun item < height) :
    Gives parens
      (checked.run {} indent (columnComment names index (partsOf item) v).1
        (columnComment names index (partsOf item) v).2)
      (painter.run {} indent (Layout.Sheet.columnComment names index item v).1
        (Layout.Sheet.columnComment names index item v).2) := by
  obtain ⟨shown, inside, kept⟩ := columnComment_partsOf names index item v
  rw [shown]
  exact follows.draws (kept.trans same) {} indent _ (fun element member =>
    filled element (inside member)) (Nat.lt_of_le_of_lt (heightRun_le_of_subset _ _ inside) bound)

theorem gives_tupleBlock (wraps : sheet.style.Wraps) (follows : Follows height checked painter)
    (same : w.parens = parens) (base : Nat) (names : List String) (group : Group)
    (filled : ∀ item ∈ group.items, ∀ element ∈ item, element.Filled)
    (bound : heightRuns group.items < height) :
    Gives parens (tupleBlock sheet checked base names group.node w)
      (sheet.tupleBlock painter base names group w) := by
  have small (item : List Element) (member : item ∈ group.items) : heightRun item < height :=
    Nat.lt_of_le_of_lt (heightRun_le_runs member) bound
  unfold tupleBlock Sheet.tupleBlock
  simp only [node_group, need_bind, listComma_eq _ _ _ _ wraps.insert, partsOfRuns_eq_map]
  split
  · refine (Gives.each partsOf 0 group.items (by simpa) fun place item member v sameThere =>
      ?_).bind fun kept => .ok (by simpa)
    refine gives_named follows ?_ _ names place item (filled item member) (small item member)
    split <;> simpa
  · refine (Gives.each partsOf 0 group.items (by simpa) fun place item member v sameThere =>
      ?_).bind fun kept => .ok (by simpa)
    exact gives_named follows (by simpa) _ names place item (filled item member)
      (small item member)

theorem gives_row (wraps : sheet.style.Wraps) (follows : Follows height checked painter)
    (same : w.parens = parens) (base : Nat) (names : List String) (item : List Element)
    (filled : ∀ element ∈ item, element.Filled) (bound : heightRun item < height) :
    Gives parens (row sheet checked base names (partsOf item) w)
      (sheet.row painter base names item w) := by
  have plain := follows.draws same {} (base + 2) item filled bound
  match item with
  | [] => exact plain
  | [.token _] => exact plain
  | [.case ⟨_, _, _, _, _⟩] => exact plain
  | [.group inner] =>
    have shown : row sheet checked base names (partsOf [.group inner]) w =
        if !inner.isSubquery then tupleBlock sheet checked base names inner.node w
        else checked.run {} (base + 2) (partsOf [.group inner]) w := by
      simp only [partsOf, Element.part, row, List.length_singleton, if_true, List.head?_cons,
        need_bind, kind_node, isSubquery_node, decide_true, Bool.true_and]
    rw [shown]
    simp only [heightRun, Element.height, Nat.max_zero] at bound
    have small := Sheet.height_group inner
    have items := (filled (.group inner) (by simp)).inner.items
    by_cases isSubquery : inner.isSubquery = true
    · simp only [isSubquery, Bool.not_true, Bool.false_eq_true, if_false, Sheet.row, if_true]
      exact plain
    · simp only [isSubquery, Bool.not_false, if_true, Sheet.row, Bool.false_eq_true, if_false]
      exact gives_tupleBlock wraps follows same base names inner items (by omega)
  | first :: second :: rest =>
    have long : (partsOf (first :: second :: rest)).length ≠ 1 := by simp [partsOf]
    rw [row, if_neg long]
    cases first <;> exact plain

theorem plainText_partsOf (item : List Element) (distinct : Distinct (collectRun item)) :
    plainText (partsOf item) = Layout.plainText item := by
  have tokens : (partsOf item).flatMap Part.tokens = item.flatMap Element.tokens := by
    rw [partsOf_eq_map, List.flatMap_map]
    refine List.flatMap_congr fun element member => ?_
    refine Distinct.inTextOrder_eq (distinct.of_subset fun token held =>
      (mem_collectRun item token).2 ⟨element, member, held⟩) fun token => ?_
    exact element.mem_collect_part
  unfold plainText Layout.plainText
  rw [tokens]

theorem gives_rows (wraps : sheet.style.Wraps) (follows : Follows height checked painter)
    (same : w.parens = parens) (base : Nat) (names : List String) (keyword : Token) (node : Node)
    (items : List (List Element)) (hasItems : node.items = partsOfRuns items)
    (filled : ∀ item ∈ items, ∀ element ∈ item, element.Filled)
    (bound : heightRuns items < height) :
    Gives parens (rows sheet checked base names keyword node w)
      (Writer.each (fun index item v =>
        sheet.row painter base (if sheet.style.addColumnNameComments then names else []) item
          (if index = 0 then v else Sheet.punct commaToken v)) 0 items
        (sheet.token base keyword (w.newline base))) := by
  unfold rows
  rw [hasItems, partsOfRuns_eq_map]
  refine .each partsOf 0 items (by simpa) fun place item member v sameThere => ?_
  have small := heightRun_le_runs member
  refine gives_row wraps follows ?_ base _ item (filled item member) (by omega)
  split <;> simpa

theorem gives_insertSource (wraps : sheet.style.Wraps) (follows : Follows height checked painter)
    (same : w.parens = parens) (base : Nat) (names : List String) (source : InsertSource)
    (filled : source.Filled) (bound : source.height < height) :
    Gives parens (do
      let w ← insertParts sheet checked base names source.nodes w
      match source.body? with
        | none => return w
        | some body => checked.statement base body (w.newline base))
      (sheet.insertSource painter base names source w) := by
  cases filled with
  | nothing => exact .ok same
  | statement body filledBody =>
    rw [InsertSource.height] at bound
    simp only [InsertSource.nodes, InsertSource.body?, Sheet.insertSource]
    exact (Gives.ok same).bind fun kept => follows.states (by simpa) base body filledBody bound
  | values keyword cut tail begins items reserved after =>
    obtain ⟨entries, commas⟩ := cut
    rw [InsertSource.height] at bound
    have isRows : (some keyword).filter (Token.isKeyword · ["VALUES"]) = some keyword := by
      simp [begins]
    simp only [InsertSource.nodes, InsertSource.body?, insertParts, reduceCtorEq, if_false, isRows,
      Sheet.insertSource]
    refine Gives.bind ((gives_rows wraps follows same base names keyword _ entries rfl items
      (by omega)).bind fun kept => ?_) fun kept => .ok kept
    cases tail with
    | none => exact .ok kept
    | some branch =>
      obtain ⟨word, elements⟩ := branch
      have isReserved : word.isReserved = true := reserved _ rfl
      rw [heightTail] at bound
      simp only [nodesOfTail, insertParts, reduceCtorEq, if_false]
      by_cases again : word.contents = "VALUES"
      · have isKeyword : (some word).filter (Token.isKeyword · ["VALUES"]) = some word := by
          simp [Token.isKeyword, isReserved, again]
        simp only [isKeyword, Sheet.looseRun, again]
        exact .ok (by simpa)
      · have noKeyword : (some word).filter (Token.isKeyword · ["VALUES"]) = none := by
          simp [Token.isKeyword, again]
        simp only [noKeyword]
        exact (gives_looseRun follows (by simpa) base word elements again (after _ rfl)
          (by omega)).bind fun keptThere => .ok keptThere

theorem gives_insert (wraps : sheet.style.Wraps) (follows : Follows height checked painter)
    (same : w.parens = parens) (base : Nat) (node : Node) (keyword : Token)
    (target : List Element) (columns : Option Group) (source : InsertSource)
    (hasKeyword : node.keyword = some keyword) (hasTarget : node.elements = partsOf target)
    (hasChildren : node.children = nodesOfColumns columns ++ source.nodes)
    (hasBody : node.body = source.body?) (targets : ∀ element ∈ target, element.Filled)
    (group : ∀ group, columns = some group → group.Filled)
    (names : ∀ group, columns = some group → Distinct (collectRuns group.items))
    (filled : source.Filled) (bound : heightRun target < height)
    (columnsBound : heightColumns columns ≤ height) (sourceBound : source.height < height) :
    Gives parens (insert sheet checked base node w)
      (sheet.insert painter base keyword target columns source w) := by
  refine gives_head follows same base (base + 7) node keyword target hasKeyword hasTarget targets
    bound fun v kept start => ?_
  unfold Sheet.insert
  simp only [← start]
  rw [hasChildren, hasBody]
  cases columns with
  | none => exact gives_insertSource wraps follows kept base [] source filled sourceBound
  | some inner =>
    rw [heightColumns, Sheet.height_group] at columnsBound
    have shown : inner.node.items.map plainText = inner.items.map Layout.plainText := by
      rw [node_group]
      simp only [partsOfRuns_eq_map, List.map_map]
      refine List.map_congr_left fun item member => plainText_partsOf item ?_
      refine (names inner rfl).of_subset fun token held => ?_
      rw [collectRuns_eq, mem_collectRun]
      obtain ⟨element, inside, among⟩ := (mem_collectRun item token).1 held
      exact ⟨element, List.mem_flatten.2 ⟨item, member, inside⟩, among⟩
    simp only [nodesOfColumns, List.singleton_append, insertParts, kind_node, if_true, shown,
      bind_assoc]
    refine (gives_tupleBlock wraps follows kept base [] inner (group inner rfl).items
      (by omega)).bind fun keptThere => ?_
    exact gives_insertSource wraps follows keptThere base _ source filled sourceBound

theorem gives_mergeAction (wraps : sheet.style.Wraps) (follows : Follows height checked painter)
    (same : w.parens = parens) (base : Nat) (action : Form) (kind : action.isAction = true)
    (filled : action.Filled) (bound : action.height < height) :
    Gives parens (mergeAction sheet checked base (some action.node) w)
      (sheet.mergeAction painter base action w) := by
  cases filled with
  | update keyword target clauses targets shaped members =>
    rw [Form.height] at bound
    simp only [mergeAction, Form.node, Sheet.mergeAction]
    exact gives_update wraps follows same base base _ keyword target clauses rfl rfl rfl targets
      shaped members (by omega) (by omega)
  | insert keyword target columns source targets group names rows =>
    rw [Form.height] at bound
    simp only [mergeAction, Form.node, Sheet.mergeAction]
    exact gives_insert wraps follows (by simpa) base _ keyword target columns source rfl rfl rfl rfl
      targets group names rows (by omega) (by omega) (by omega)
  | raw elements all =>
    rw [Form.height] at bound
    simp only [mergeAction, Form.node, Sheet.mergeAction]
    exact follows.draws same {} base elements all bound
  | _ => exact absurd kind Bool.false_ne_true

theorem gives_merge (wraps : sheet.style.Wraps) (follows : Follows height checked painter)
    (same : w.parens = parens) (base : Nat) (node : Node) (keyword : Token)
    (target : List Element) (source : MergeSource) (branches : List MergeBranch)
    (hasKeyword : node.keyword = some keyword) (hasTarget : node.elements = partsOf target)
    (hasChildren : node.children = (Form.merge keyword target source branches).node.children)
    (filled : (Form.merge keyword target source branches).Filled)
    (bound : (Form.merge keyword target source branches).height < height) :
    Gives parens (merge sheet checked base node w)
      (sheet.merge painter base keyword target source branches w) := by
  obtain ⟨usingWord, elements, conditions⟩ := source
  rw [Form.height] at bound
  cases filled with
  | merge _ _ _ _ targets begins sources connected apart heads kinds actions =>
    refine gives_head follows same base (base + 6) node keyword target hasKeyword hasTarget targets
      (by omega) fun v kept start => ?_
    unfold Sheet.merge
    simp only [← start]
    rw [hasChildren]
    simp only [Form.node, each, need_bind, if_pos begins]
    refine (gives_joined follows (by simpa) _ _ _ _ _ elements conditions rfl rfl sources (by omega)
      connected (by omega)).bind fun keptThere => ?_
    rw [each_from _ (0 + 1) 0, nodesOfMerge_eq_map]
    refine .each MergeBranch.node 0 branches keptThere fun place branch member u sameThere => ?_
    have small := heightMerge_le member
    simp only [MergeBranch.node, need_bind, apart branch member, Bool.false_eq_true, if_false]
    refine (follows.draws (by simpa) {} (base + 2) branch.head (heads branch member)
      (by omega)).bind fun keptHere => ?_
    exact gives_mergeAction wraps follows keptHere (base + 2) branch.action (kinds branch member)
      (actions branch member) (by omega)

theorem gives_inlineTuple (follows : Follows height checked painter) (same : w.parens = parens)
    (indent : Nat) (group : Group)
    (filled : ∀ item ∈ group.items, ∀ element ∈ item, element.Filled)
    (bound : heightRuns group.items < height) :
    Gives parens (inlineTuple checked indent group.node w)
      (Sheet.inlineTuple painter indent group w) := by
  unfold inlineTuple Sheet.inlineTuple
  simp only [node_group, need_bind]
  refine (gives_items follows (by simpa) {} indent
    (fun place v => if place = 0 then v else (Sheet.punct commaToken v).space)
    (fun place v => by split <;> simp) group.items filled bound).bind fun kept => .ok (by simpa)

theorem gives_definitionHead (follows : Follows height checked painter) (same : w.parens = parens)
    (base : Nat) (head : List Element) (filled : ∀ element ∈ head, element.Filled)
    (bound : heightRun head < height) :
    Gives parens (definitionHead checked base (partsOf head) w)
      (Sheet.definitionHead painter base head w) := by
  unfold definitionHead Sheet.definitionHead
  rw [partsOf_eq_map]
  refine .each Element.part 0 head same fun place element member v sameThere => ?_
  have small := height_le_of_mem element head member
  have alone : Gives parens (checked.run {} base [element.part] v)
      (painter.run {} base [element] v) :=
    follows.draws sameThere {} base [element] (by simpa using filled element member)
      (by simp only [heightRun]; omega)
  cases element with
  | token token => exact alone
  | case inner =>
    obtain ⟨_, _, _, _, _⟩ := inner
    exact alone
  | group inner =>
    rw [Element.height, Sheet.height_group] at small
    simp only [Element.part] at alone ⊢
    have isRole : inner.node.role = some inner.role := by rw [node_group]
    simp only [kind_node, isRole, decide_true, Bool.true_and, Option.some.injEq, decide_eq_true_eq]
    split
    · exact gives_inlineTuple follows sameThere base inner (filled _ member).inner.items (by omega)
    · exact alone

theorem gives_definition (follows : Follows height checked painter) (same : w.parens = parens)
    (base : Nat) (one : Definition) (heads : ∀ element ∈ one.head, element.Filled)
    (modifiers : ∀ element ∈ one.modifiers, element.Filled) (query : one.query.Filled)
    (bound : heightDefinitions [one] < height) :
    Gives parens (definition sheet checked base one.node w)
      (sheet.definition painter base one w) := by
  have height_one : heightDefinitions [one] =
      max (heightRun one.head) (max (heightRun one.modifiers) one.query.height) := by
    cases one
    simp [heightDefinitions]
  rw [height_one, Sheet.height_group] at bound
  unfold definition Sheet.definition
  refine (gives_definitionHead follows same base one.head heads (by omega)).bind fun kept => ?_
  simp only [Definition.node, need_bind]
  have shown : Gives parens
      (each (fun _ words v => checked.run {} base words v) 0
        (if one.modifiers.isEmpty then [] else [partsOf one.modifiers])
        (sheet.token base one.keyword (Sheet.definitionHead painter base one.head w)))
      (painter.run {} base one.modifiers
        (sheet.token base one.keyword (Sheet.definitionHead painter base one.head w))) := by
    cases words : one.modifiers with
    | nil =>
      rw [follows.nothing]
      exact .ok (by simpa)
    | cons first rest =>
      rw [words] at modifiers bound
      exact (follows.draws (by simpa) {} base (first :: rest) modifiers (by omega)).bind
        fun keptThere => .ok keptThere
  refine shown.bind fun keptThere => ?_
  rw [isSubquery_node]
  have isGroup : Element.part (.group one.query) = .node one.query.node := rfl
  have alone := follows.draws keptThere {} base [.group one.query]
    (by simpa using Element.Filled.group one.query query)
    (by simp only [heightRun, Element.height, Sheet.height_group]; omega)
  by_cases isSubquery : one.query.isSubquery = true
  · rw [if_pos isSubquery]
    obtain ⟨statement, isBody, body⟩ := query.exists_body isSubquery
    have role : one.query.role = .subquery := by simpa [Group.isSubquery] using isSubquery
    rw [isBody, heightBody] at bound
    simp only [node_group, isBody, nodeOfBody, need_bind, role]
    exact (follows.states (by simpa) (base + 2) statement body (by omega)).bind
      fun last => .ok (by simpa)
  · have other : one.query.role ≠ .subquery := by simpa [Group.isSubquery] using isSubquery
    rw [if_neg isSubquery]
    split
    · rename_i isRole _
      exact absurd isRole other
    · exact alone

theorem gives_withQueries (follows : Follows height checked painter) (same : w.parens = parens)
    (base : Nat) (node : Node) (keyword : Token) (modifiers : List Element)
    (many : List Definition) (commas : List Token) (body : Statement)
    (hasKeyword : node.keyword = some keyword) (hasModifiers : node.elements = partsOf modifiers)
    (hasDefinitions : node.children = nodesOfDefinitions many)
    (hasBody : node.body = some body.node)
    (filled : (Form.withQueries keyword modifiers many commas body).Filled)
    (bound : (Form.withQueries keyword modifiers many commas body).height < height) :
    Gives parens (withQueries sheet checked base node w)
      (sheet.withQueries painter base keyword modifiers many body w) := by
  rw [Form.height] at bound
  cases filled with
  | withQueries _ _ _ _ _ words heads others queries last =>
    refine gives_head (w := { w with broken := w.broken || w.inline }) follows same base base node
      keyword modifiers hasKeyword hasModifiers words (by omega) fun v kept start => ?_
    unfold Sheet.withQueries
    simp only [← start]
    rw [hasDefinitions, hasBody, nodesOfDefinitions_eq_map]
    refine (Gives.each Definition.node 0 many kept fun place one member u sameThere =>
      ?_).bind fun keptThere => follows.states (by simpa) base body last (by omega)
    have small := heightDefinitions_le member
    refine gives_definition follows ?_ base one (heads one member) (others one member)
      (queries one member) (by omega)
    split <;> simpa

theorem columnName?_partsOf (item : List Element) :
    columnName? (partsOf item) =
      .ok (item.head?.bind Element.token? |>.filter fun token => token.kind.isName) := by
  match item with
  | [] => rfl
  | .token _ :: _ => rfl
  | .group _ :: _ => rfl
  | .case ⟨_, _, _, _, _⟩ :: _ => rfl

theorem foldl_max_filterMap {α : Type} (number : α → Option Nat) (entries : List α)
    (start : Nat) :
    (entries.filterMap number).foldl max start =
      (entries.map fun entry => (number entry).getD 0).foldl max start := by
  induction entries generalizing start with
  | nil => rfl
  | cons entry rest ih =>
    rw [List.filterMap_cons, List.map_cons, List.foldl_cons]
    cases number entry with
    | none => simpa using ih start
    | some value => simpa using ih (max start value)

theorem nameWidth_partsOf (items : List (List Element)) :
    nameWidth (items.map partsOf) = .ok (Sheet.nameWidth items) := by
  have names : (items.map partsOf).mapM columnName? = .ok (items.map fun item =>
      item.head?.bind Element.token? |>.filter fun token => token.kind.isName) := by
    induction items with
    | nil => rfl
    | cons item rest ih =>
      rw [List.map_cons, List.mapM_cons, columnName?_partsOf, ih]
      rfl
  unfold nameWidth Sheet.nameWidth
  rw [names]
  refine congrArg Except.ok ?_
  rw [List.map_filterMap, List.filterMap_map, foldl_max_filterMap]
  refine congrArg (List.foldl max 0) (List.map_congr_left fun item _ => ?_)
  match item with
  | [] => rfl
  | .group _ :: _ => rfl
  | .case _ :: _ => rfl
  | .token token :: _ => cases isName : token.kind.isName <;>
      simp [Element.token?, Option.filter_some, isName]

theorem gives_columnRest (follows : Follows height checked painter) (same : w.parens = parens)
    (base : Nat) (rest : List Element) (filled : ∀ element ∈ rest, element.Filled)
    (bound : heightRun rest < height) :
    Gives parens (columnRest sheet checked base (partsOf rest) w)
      (sheet.columnRest painter base rest w) := by
  have plain := follows.draws same {} (base + 4) rest filled bound
  match rest with
  | [] => exact plain
  | .group _ :: _ => exact plain
  | .case ⟨_, _, _, _, _⟩ :: _ => exact plain
  | .token first :: others =>
    rw [heightRun] at bound
    have inside := (List.forall_mem_cons.1 filled).2
    unfold columnRest Sheet.columnRest
    simp only [partsOf, Element.part, List.isEmpty_cons, Bool.false_eq_true, if_false,
      List.head?_cons, need_bind, Part.token?, Option.filter_some, List.tail_cons] at plain ⊢
    by_cases isWord : first.kind.isWordLike = true
    · simp only [isWord, if_true]
      exact follows.draws (by simpa) {} (base + 4) others inside (by omega)
    · simp only [isWord, Bool.false_eq_true, if_false]
      exact plain

theorem gives_tableColumns (follows : Follows height checked painter) (same : w.parens = parens)
    (base : Nat) (group : Group) (filled : ∀ item ∈ group.items, ∀ element ∈ item, element.Filled)
    (bound : heightRuns group.items < height) :
    Gives parens (tableColumns sheet checked base group.node w)
      (sheet.tableColumns painter base group w) := by
  unfold tableColumns Sheet.tableColumns
  simp only [node_group, partsOfRuns_eq_map, nameWidth_partsOf, List.length_map]
  refine (Gives.each partsOf 0 group.items (by simpa) fun place item member v sameThere =>
    ?_).bind fun kept => .ok (by simpa)
  have small := heightRun_le_runs member
  have inside := filled item member
  have line : (v.newline (base + 2)).parens = parens := by simpa
  have finish {step : Except Undefined Writer} {u : Writer} (front : Gives parens step u) :
      Gives parens (do
        let u ← step
        return if place + 1 < group.items.length then Sheet.punct commaToken u else u)
      (if place + 1 < group.items.length then Sheet.punct commaToken u else u) :=
    front.bind fun kept => .ok (by split <;> simpa)
  have plain := finish (follows.draws line {} (base + 4) item inside (by omega))
  rw [columnName?_partsOf]
  cases item with
  | nil => exact plain
  | cons first rest =>
    cases first with
    | group _ => exact plain
    | case _ => exact plain
    | token name =>
      rw [heightRun] at small
      simp only [List.head?_cons, Option.bind_some, Element.token?, Option.filter_some]
      by_cases isName : name.kind.isName = true
      · simp only [isName, if_true]
        exact finish (gives_columnRest follows (by simpa) base rest
          (List.forall_mem_cons.1 inside).2 (by omega))
      · simp only [isName, Bool.false_eq_true, if_false]
        exact plain

theorem isKeyword_part (words : List String) (element : Element) :
    element.part.isKeyword words = element.isKeyword words := by
  cases element with
  | case inner =>
    obtain ⟨_, _, _, _, _⟩ := inner
    rfl
  | _ => rfl

def createRest (sheet : Sheet) (painter : Layout.Painter) (base : Nat) (rest : CreateRest)
    (w : Writer) : Writer :=
  match rest with
  | .nothing => w
  | .query word body =>
    painter.statement base body ((sheet.token base word (w.newline base)).newline base)
  | .run elements => painter.run {} base elements w

theorem gives_createRest (follows : Follows height checked painter) (same : w.parens = parens)
    (base index : Nat) (isTable : Bool) (rest : CreateRest) (filled : rest.Filled)
    (bound : rest.height < height) :
    Gives parens
      (each (fun _ child v => createPart sheet checked base isTable child v) index rest.nodes w)
      (createRest sheet painter base rest w) := by
  cases filled with
  | nothing => exact .ok same
  | query word body begins filledBody =>
    rw [CreateRest.height] at bound
    have isAs : (some word).filter (Token.isKeyword · ["AS"]) = some word := by simp [begins]
    simp only [CreateRest.nodes, each, createPart, reduceCtorEq, if_false, isAs, need_bind]
    exact (follows.states (by simpa) base body filledBody bound).bind fun kept => .ok kept
  | run elements all =>
    rw [CreateRest.height] at bound
    exact (follows.draws same {} base elements all bound).bind fun kept => .ok kept

theorem gives_create (follows : Follows height checked painter) (same : w.parens = parens)
    (base : Nat) (node : Node) (keyword : Token) (object : List Element)
    (columns : Option Group) (rest : CreateRest) (hasKeyword : node.keyword = some keyword)
    (hasObject : node.elements = partsOf object)
    (hasChildren : node.children = nodesOfColumns columns ++ rest.nodes)
    (filled : (Form.create keyword object columns rest).Filled)
    (bound : (Form.create keyword object columns rest).height < height) :
    Gives parens (create sheet checked base node w)
      (sheet.create painter base keyword object columns rest w) := by
  rw [Form.height] at bound
  cases filled with
  | create _ _ _ _ objects group after =>
    refine gives_head follows same base base node keyword object hasKeyword hasObject objects
      (by omega) fun v kept start => ?_
    have isTable : node.elements.any (Part.isKeyword ["TABLE"]) =
        object.any (Element.isKeyword ["TABLE"]) := by
      rw [hasObject, partsOf_eq_map, List.any_map]
      simp only [Function.comp_def, isKeyword_part]
    unfold Sheet.create
    simp only [← start]
    rw [hasChildren, isTable]
    cases columns with
    | none => exact gives_createRest follows kept base 0 _ rest after (by omega)
    | some inner =>
      rw [heightColumns, Sheet.height_group] at bound
      have items := (group inner rfl).items
      simp only [nodesOfColumns, List.singleton_append, each, createPart, kind_node, if_true]
      refine Gives.bind ?_ fun keptThere =>
        gives_createRest follows keptThere base _ _ rest after (by omega)
      split
      · exact gives_tableColumns follows kept base inner items (by omega)
      · exact gives_inlineTuple follows kept base inner items (by omega)

theorem gives_grant (follows : Follows height checked painter) (same : w.parens = parens)
    (base : Nat) (node : Node) (keyword : Token) (privileges : List Element)
    (branches : List (Branch Element)) (hasKeyword : node.keyword = some keyword)
    (hasPrivileges : node.elements = partsOf privileges)
    (hasBranches : node.children = nodesOfBranches branches)
    (words : ∀ element ∈ privileges, element.Filled)
    (filled : ∀ branch ∈ branches, ∀ element ∈ branch.elements, element.Filled)
    (bound : heightRun privileges < height) (bounds : heightBranches branches < height) :
    Gives parens (grant sheet checked base node w)
      (sheet.grant painter base keyword privileges branches w) := by
  refine gives_head follows same base (base + 2) node keyword privileges hasKeyword hasPrivileges
    words bound fun v kept start => ?_
  unfold Sheet.grant
  simp only [← start]
  rw [hasBranches]
  exact gives_branches follows (base + 2) (fun _ => base + 4) branches filled bounds kept

theorem gives_form (wraps : sheet.style.Wraps) (follows : Follows height checked painter)
    (same : w.parens = parens) (base : Nat) (form : Form) (leading trailing : List Token)
    (filled : form.Filled) (bound : form.height < height) :
    Gives parens
      (handled sheet checked base { form.node with leading := leading, trailing := trailing } w)
      (sheet.form painter base form w) := by
  have whole := filled
  have height_form := bound
  cases filled with
  | query many shaped members =>
    rw [Form.height] at bound
    simp only [Form.node, handled, Sheet.form]
    exact gives_clauses wraps follows same base
      (fun index v => if index = 0 then v else v.newline base) (fun _ _ => by split <;> simp) many
      shaped members bound
  | insert keyword target columns source targets group names rows =>
    rw [Form.height] at bound
    simp only [Form.node, handled, Sheet.form]
    exact gives_insert wraps follows same base _ keyword target columns source rfl rfl rfl rfl
      targets group names rows (by omega) (by omega) (by omega)
  | update keyword target many targets shaped members =>
    rw [Form.height] at bound
    simp only [Form.node, handled, Sheet.form]
    exact gives_update wraps follows same base _ _ keyword target many rfl rfl rfl targets shaped
      members (by omega) (by omega)
  | delete keyword target many targets shaped members =>
    rw [Form.height] at bound
    simp only [Form.node, handled, Sheet.form]
    exact gives_delete wraps follows same base _ keyword target many rfl rfl rfl targets shaped
      members (by omega) (by omega)
  | merge keyword target source branches =>
    obtain ⟨usingWord, elements, conditions⟩ := source
    simp only [handled, Sheet.form]
    exact gives_merge wraps follows same base _ keyword target _ branches rfl rfl rfl whole
      height_form
  | withQueries keyword modifiers many commas body =>
    simp only [Form.node, handled, Sheet.form]
    exact gives_withQueries follows same base _ keyword modifiers many commas body rfl rfl rfl rfl
      whole height_form
  | create keyword object columns rest =>
    simp only [Form.node, handled, Sheet.form]
    exact gives_create follows same base _ keyword object columns rest rfl rfl rfl whole height_form
  | grant keyword privileges branches words members =>
    rw [Form.height] at bound
    simp only [Form.node, handled, Sheet.form]
    exact gives_grant follows same base _ keyword privileges branches rfl rfl rfl words members
      (by omega) (by omega)
  | raw elements all =>
    rw [Form.height] at bound
    simp only [Form.node, handled, Sheet.form]
    exact follows.draws same {} base elements all bound

theorem gives_statement (wraps : sheet.style.Wraps) (follows : Follows height checked painter)
    (same : w.parens = parens) (base : Nat) (one : Statement) (filled : one.Filled)
    (bound : one.height ≤ height) :
    Gives parens (statement sheet checked base one.node w)
      (sheet.statement painter base one w) := by
  obtain ⟨leading, form, trailing⟩ := one
  rw [Statement.height] at bound
  cases filled with
  | intro _ filledForm =>
    unfold statement Sheet.statement
    simp only [Statement.node]
    refine (gives_form wraps follows ?_ base form leading trailing filledForm (by omega)).bind
      fun kept => .ok ?_
    · rw [Writer.parens_each _ _ (by simp), same]
    · rw [Writer.parens_each _ _ (by simp), kept]

theorem follows_painter (sheet : Sheet) (wraps : sheet.style.Wraps) (height : Nat) :
    Follows height (painterOf sheet height) (sheet.painter height) := by
  induction height with
  | zero => exact ⟨by simp, by simp, fun _ _ _ => rfl⟩
  | succ height ih =>
    refine ⟨fun mode indent elements w filled bound => ?_, fun base one w filled bound => ?_,
      fun mode indent w => rfl⟩
    · exact gives_run ih rfl mode indent false elements filled (by omega)
    · exact gives_statement wraps ih rfl base one filled (by omega)

theorem render_node (sheet : Sheet) (wraps : sheet.style.Wraps) (one : Statement)
    (filled : one.Filled) (terminator : Option Token) :
    render sheet one.height one.node terminator = .ok (sheet.render one terminator) := by
  obtain ⟨drawn, -⟩ := (follows_painter sheet wraps (one.height + 1)).statement 0 one {} filled
    (Nat.lt_succ_self _)
  unfold render Sheet.render
  rw [drawn]
  rfl

end Layout.Checked

end SqlLayout
