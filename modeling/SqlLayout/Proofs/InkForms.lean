import SqlLayout.Proofs.Completeness
import SqlLayout.Proofs.Ink

/-! Clauses and statements keep two writers abreast, whatever the two layouts make of lines,
wraps and indentation. So two formatters that put words into the same case give texts that
are the same but for their blanks. -/
namespace SqlLayout.Layout

open SqlLayout.Tree SqlLayout.Style

namespace Sheet

variable {left right : Sheet} {height : Nat} {leftPainter rightPainter : Painter}
  {origin : List Char × List Char} {v w : Writer}

/-- What sets the entries of a list apart: nothing before the first, and a comma before each
of the others, with any blanks. -/
structure Commas (separate : Nat → Writer → Writer) : Prop where
  before : ∀ w : Writer, (separate 0 w).face = w.face
  between : ∀ place, place ≠ 0 → ∀ w : Writer,
    (separate place w).face.ink = w.face.ink ++ [','] ∧
      ∀ token ∈ (separate place w).last, Neutral token

theorem face_comma {w u : Writer} (same : u.face = (punct commaToken w).face) :
    u.face.ink = w.face.ink ++ [','] ∧ ∀ token ∈ u.last, Neutral token := by
  have last : u.last = some commaToken := congrArg Face.last (same.trans (face_punct _ w))
  rw [same, face_punct, last]
  refine ⟨rfl, ?_⟩
  rintro token ⟨⟩
  exact neutral_comma

theorem commas_quiet (quiet : Writer → Writer) (same : ∀ w : Writer, (quiet w).face = w.face) :
    Commas fun place w => if place = 0 then w else quiet (punct commaToken w) where
  before := fun _ => rfl
  between := by
    intro place later w
    simp only [if_neg later]
    exact face_comma (same _)

theorem face_lineBreakComma (sheet : Sheet) (indent : Nat) (w : Writer) :
    (sheet.lineBreakComma indent w).face.ink = w.face.ink ++ [','] ∧
      ∀ token ∈ (sheet.lineBreakComma indent w).last, Neutral token := by
  unfold lineBreakComma
  split
  · exact face_comma (Writer.face_space _)
  split
  · simp only
    split
    · refine face_comma ?_
      rw [Writer.face_space, face_punct, Writer.face_newline, face_punct]
    · rw [Writer.face_markAs, face_punct, Writer.face_newline]
      refine ⟨rfl, ?_⟩
      rintro token ⟨⟩
      exact neutral_open
  · exact face_comma (Writer.face_newline _ _)

theorem commas_listComma (sheet : Sheet) (indent threshold : Nat) :
    Commas (sheet.listComma indent threshold) where
  before := fun _ => rfl
  between := by
    intro place later w
    rw [listComma, if_neg later]
    split
    · exact face_lineBreakComma sheet indent w
    · exact face_comma (Writer.face_space _)

theorem commas_block (sheet : Sheet) (indent : Nat) :
    Commas fun place w =>
      if place = 0 then w.newline indent else sheet.lineBreakComma indent w where
  before := fun w => Writer.face_newline indent w
  between := by
    intro place later w
    simp only [if_neg later]
    exact face_lineBreakComma sheet indent w

theorem Commas.abreast {first second : Nat → Writer → Writer} (commas : Commas first)
    (others : Commas second) (place : Nat) (abreast : Abreast origin v w) :
    Abreast origin (first place v) (second place w) := by
  by_cases start : place = 0
  · rw [start]
    exact abreast.of_face (commas.before v) (others.before w)
  · obtain ⟨inkLeft, neutral⟩ := commas.between place start v
    obtain ⟨inkRight, neutralToo⟩ := others.between place start w
    exact abreast.extend [','] inkLeft inkRight (.inr ⟨neutral, neutralToo⟩)

theorem abreast_items (paired : Paired height leftPainter rightPainter)
    (abreast : Abreast origin v w) (first second : RunMode)
    (types : first.typeAfterAs = second.typeAfterAs) {indent column : Nat}
    {separateLeft separateRight : Nat → Writer → Writer} (commas : Commas separateLeft)
    (others : Commas separateRight) (items : List (List Element))
    (drawable : ∀ item ∈ items, Drawable height item) :
    Abreast origin
      (Writer.each (fun place item u =>
        leftPainter.run first indent item (separateLeft place u)) 0 items v)
      (Writer.each (fun place item u =>
        rightPainter.run second column item (separateRight place u)) 0 items w) := by
  refine abreast.each _ _ 0 items fun place item member x y here => ?_
  exact (commas.abreast others place here).run paired item types (drawable item member)

theorem abreast_itemList (paired : Paired height leftPainter rightPainter)
    (abreast : Abreast origin v w) {indent column first second : Nat}
    (items : List (List Element)) (drawable : ∀ item ∈ items, Drawable height item) :
    Abreast origin (left.itemList leftPainter indent first items v)
      (right.itemList rightPainter column second items w) :=
  abreast_items paired abreast {} {} rfl (left.commas_listComma indent first)
    (right.commas_listComma column second) items drawable

theorem abreast_conditions (paired : Paired height leftPainter rightPainter)
    (abreast : Abreast origin v w) (indent column : Nat)
    (connectLeft connectRight : Nat → Token → Writer → Writer)
    (conditions : List (Condition Element))
    (connects : ∀ condition ∈ conditions, ∀ connector ∈ condition.connector, ∀ place,
      ∀ x y : Writer, Abreast origin x y →
        Abreast origin (connectLeft place connector x) (connectRight place connector y))
    (drawable : ∀ condition ∈ conditions, Drawable height condition.elements) :
    Abreast origin
      (Writer.each (fun place condition u =>
        leftPainter.run {} indent condition.elements
          (match condition.connector with
            | none => u
            | some connector => connectLeft place connector u)) 0 conditions v)
      (Writer.each (fun place condition u =>
        rightPainter.run {} column condition.elements
          (match condition.connector with
            | none => u
            | some connector => connectRight place connector u)) 0 conditions w) := by
  refine abreast.each _ _ 0 conditions fun place condition member x y here => ?_
  refine Abreast.run ?_ paired condition.elements rfl (drawable condition member)
  have connect := connects condition member
  cases found : condition.connector with
  | none => exact here
  | some connector => exact connect connector found place x y here

structure Chain (height : Nat) (conditions : List (Condition Element)) : Prop where
  drawable : ∀ condition ∈ conditions, Drawable height condition.elements
  honest : ∀ condition ∈ conditions, ∀ connector ∈ condition.connector, Honest connector

theorem abreast_joinConditions (letters : SameLetters left right)
    (paired : Paired height leftPainter rightPainter) (abreast : Abreast origin v w)
    {indent column first second : Nat} (conditions : List (Condition Element))
    (chain : Chain height conditions) :
    Abreast origin (left.joinConditions leftPainter indent first conditions v)
      (right.joinConditions rightPainter column second conditions w) := by
  refine abreast_conditions paired abreast (first + 1) (second + 1)
    (fun _ connector u => left.token indent connector
      (if left.style.joinWrapStyle.wraps conditions.length then
        u.newline (max (first - connector.contents.length) indent) else u))
    (fun _ connector u => right.token column connector
      (if right.style.joinWrapStyle.wraps conditions.length then
        u.newline (max (second - connector.contents.length) column) else u))
    conditions ?_ chain.drawable
  intro condition member connector found place x y here
  refine (here.of_face ?_ ?_).token letters connector (chain.honest condition member connector found)
  · rw [apply_ite Writer.face, Writer.face_newline, ite_self]
  · rw [apply_ite Writer.face, Writer.face_newline, ite_self]

theorem abreast_predicates (letters : SameLetters left right)
    (paired : Paired height leftPainter rightPainter) (abreast : Abreast origin v w)
    {base column first second : Nat} (conditions : List (Condition Element))
    (chain : Chain height conditions) :
    Abreast origin (left.predicates leftPainter base first conditions v)
      (right.predicates rightPainter column second conditions w) := by
  refine abreast_conditions paired abreast (base + first + 1) (column + second + 1)
    (fun place connector u =>
      if place = 0 then left.token base connector u
      else if left.style.indentWhereConditions then
        left.token base connector (u.newline (base + (first - connector.contents.length)))
      else (left.token base connector (u.newline base)).padTo (base + first + 1))
    (fun place connector u =>
      if place = 0 then right.token column connector u
      else if right.style.indentWhereConditions then
        right.token column connector (u.newline (column + (second - connector.contents.length)))
      else (right.token column connector (u.newline column)).padTo (column + second + 1))
    conditions ?_ chain.drawable
  intro condition member connector found place x y here
  have honest := chain.honest condition member connector found
  by_cases start : place = 0
  · simp only [if_pos start]
    exact here.token letters connector honest
  · have face (sheet : Sheet) (u : Writer) (base line align : Nat) :
        (if sheet.style.indentWhereConditions then sheet.token base connector (u.newline line)
          else (sheet.token base connector (u.newline base)).padTo align).face =
          (sheet.token base connector u).face := by
      split
      · rw [face_token, face_token, Writer.face_newline, Writer.last_newline]
      · rw [Writer.face_padTo, face_token, face_token, Writer.face_newline, Writer.last_newline]
    simp only [if_neg start]
    exact (here.token letters connector honest).of_face (face left x base _ _)
      (face right y column _ _)

structure Joined (height : Nat) (join : Join Element) : Prop where
  keyword : Honest join.keyword
  source : Drawable height join.source
  chain : Chain height join.conditions
  columns : Drawable height join.columns

theorem abreast_join (letters : SameLetters left right)
    (paired : Paired height leftPainter rightPainter) (abreast : Abreast origin v w)
    {indent column : Nat} (join : Join Element) (joined : Joined height join) :
    Abreast origin (left.join leftPainter indent join v) (right.join rightPainter column join w) :=
  (abreast_joinConditions letters paired
    ((abreast.token letters join.keyword joined.keyword).run paired join.source (by rfl)
      joined.source) join.conditions joined.chain).run paired join.columns rfl joined.columns

theorem abreast_sources (letters : SameLetters left right)
    (paired : Paired height leftPainter rightPainter) (abreast : Abreast origin v w)
    {base column : Nat} (tables : List (List Element)) (joins : List (Join Element))
    (drawable : ∀ table ∈ tables, Drawable height table)
    (joined : ∀ join ∈ joins, Joined height join) :
    Abreast origin (left.sources leftPainter base tables joins v)
      (right.sources rightPainter column tables joins w) := by
  refine (abreast_items paired abreast { block := left.style.newLineForSubselects }
    { block := right.style.newLineForSubselects } rfl
    (commas_quiet _ (Writer.face_newline (base + 5)))
    (commas_quiet _ (Writer.face_newline (column + 5))) tables drawable).each _ _ 0 joins ?_
  intro place join member x y here
  exact abreast_join letters paired here.newline join (joined join member)

theorem abreast_looseRun (paired : Paired height leftPainter rightPainter)
    (abreast : Abreast origin v w) {base column : Nat} (keyword : Token) (elements : List Element)
    (drawable : dropsRun keyword.contents = false → Drawable height elements) :
    Abreast origin (left.looseRun leftPainter base keyword elements v)
      (right.looseRun rightPainter column keyword elements w) := by
  unfold looseRun
  simp only
  split
  · rename_i isSelect
    have kept : dropsRun keyword.contents = false := by
      rw [isSelect]
      decide
    exact (abreast.run paired elements rfl (drawable kept)).space
  split
  · exact abreast
  split
  · exact abreast.space
  rename_i isCut isList
  have kept : dropsRun keyword.contents = false := by simp_all [dropsRun]
  split
  · split
    · exact abreast
    · exact abreast.newline.run paired elements rfl (drawable kept)
  · exact abreast.run paired elements rfl (drawable kept)

theorem drawable_items (items : List (List Element)) (bound : heightRuns items < height)
    (genuine : ∀ mark ∈ (traceItems items).marks, Genuine mark) :
    ∀ item ∈ items, Drawable height item := by
  intro item member
  have small := heightRun_le_runs member
  refine ⟨by omega, fun mark inside => genuine mark ?_⟩
  cases items with
  | nil => simp at member
  | cons first rest =>
    rw [traceItems, Trace.marks_append, marks_traceMore, List.mem_append]
    rcases List.mem_cons.1 member with rfl | later
    · exact .inl inside
    · exact .inr (List.mem_flatMap.2 ⟨item, later, by simp [inside]⟩)

theorem chain_of (conditions : List (Condition Element))
    (bound : heightConditions conditions < height)
    (genuine : ∀ mark ∈ (traceConditions conditions).marks, Genuine mark) :
    Chain height conditions := by
  rw [marks_traceConditions] at genuine
  constructor
  · intro condition member
    have small := heightRun_le_conditions member
    refine ⟨by omega, fun mark inside => genuine mark ?_⟩
    exact List.mem_flatMap.2 ⟨condition, member, List.mem_append_right _ inside⟩
  · intro condition member connector found
    have mark : Genuine (.ofToken connector) := by
      refine genuine _ (List.mem_flatMap.2 ⟨condition, member, List.mem_append_left _ ?_⟩)
      simp [Option.mem_def.1 found]
    exact mark.honest

theorem joined_of (joins : List (Join Element)) (bound : heightJoins joins < height)
    (genuine : ∀ mark ∈ (traceJoins joins).marks, Genuine mark) :
    ∀ join ∈ joins, Joined height join := by
  intro join member
  have small := heightJoins_le member
  simp only [heightJoins] at small
  have shown (mark : Mark) (inside : mark ∈ (traceJoin join).marks) : Genuine mark := by
    rw [marks_traceJoins] at genuine
    exact genuine mark (List.mem_flatMap.2 ⟨join, member, inside⟩)
  simp only [traceJoin, Trace.marks_append, Trace.marks_ofToken, List.mem_append,
    List.mem_singleton, or_imp, forall_and, forall_eq] at shown
  obtain ⟨⟨⟨keyword, source⟩, conditions⟩, columns⟩ := shown
  exact ⟨keyword.honest, ⟨by omega, source⟩, chain_of _ (by omega) conditions,
    ⟨by omega, columns⟩⟩

theorem abreast_clause (letters : SameLetters left right)
    (paired : Paired height leftPainter rightPainter) (abreast : Abreast origin v w)
    {base column : Nat} (clause : Clause Element) (bound : heightClause clause.body < height)
    (genuine : ∀ mark ∈ clause.trace.marks, Genuine mark) :
    Abreast origin (left.clause leftPainter base clause v)
      (right.clause rightPainter column clause w) := by
  obtain ⟨keyword, body⟩ := clause
  simp only [Clause.trace, Trace.marks_append, List.mem_append, or_imp, forall_and,
    Trace.marks_ofTokens, List.mem_map, Option.mem_toList] at genuine
  obtain ⟨first, rest⟩ := genuine
  cases keyword with
  | none =>
    cases body with
    | run elements =>
      simp only [traceClause] at rest
      exact abreast.run paired elements rfl ⟨bound, rest⟩
    | projection modifiers columns => exact abreast
    | sources tables joins => exact abreast
    | predicate conditions => exact abreast
    | list entries => exact abreast
  | some keyword =>
    have named : Abreast origin (left.token base keyword v) (right.token column keyword w) :=
      abreast.token letters keyword (first _ ⟨keyword, rfl, rfl⟩).honest
    cases body with
    | run elements =>
      have loose : Abreast origin
          (left.looseRun leftPainter base keyword elements (left.token base keyword v))
          (right.looseRun rightPainter column keyword elements (right.token column keyword w)) := by
        refine abreast_looseRun paired named keyword elements fun kept => ⟨bound, ?_⟩
        simpa only [traceClause, Option.any_some, kept, Bool.false_eq_true, if_false] using rest
      exact loose
    | projection modifiers columns =>
      obtain ⟨items, commas⟩ := columns
      rw [heightClause] at bound
      simp only [traceClause, Option.isSome_some, if_true, Trace.marks_append, List.mem_append,
        or_imp, forall_and] at rest
      exact abreast_itemList paired (named.run paired modifiers rfl ⟨by omega, rest.1⟩).space items
        (drawable_items items (by omega) rest.2)
    | sources tables joins =>
      obtain ⟨items, commas⟩ := tables
      rw [heightClause] at bound
      simp only [traceClause, Option.isSome_some, if_true, Trace.marks_append, List.mem_append,
        or_imp, forall_and] at rest
      exact abreast_sources letters paired named items joins
        (drawable_items items (by omega) rest.1) (joined_of joins (by omega) rest.2)
    | predicate conditions =>
      simp only [traceClause, Option.isSome_some, if_true] at rest
      exact abreast_predicates letters paired named conditions (chain_of conditions bound rest)
    | list entries =>
      obtain ⟨items, commas⟩ := entries
      simp only [traceClause, Option.isSome_some, if_true] at rest
      exact abreast_itemList paired named.space items (drawable_items items bound rest)

theorem clause_of (clauses : List (Clause Element)) (bound : heightClauses clauses < height)
    (genuine : ∀ mark ∈ (traceClauses clauses).marks, Genuine mark) (clause : Clause Element)
    (member : clause ∈ clauses) :
    heightClause clause.body < height ∧ ∀ mark ∈ clause.trace.marks, Genuine mark := by
  rw [marks_traceClauses] at genuine
  have small := heightClause_le member
  exact ⟨by omega, fun mark inside => genuine mark (List.mem_flatMap.2 ⟨clause, member, inside⟩)⟩

theorem abreast_clauses (letters : SameLetters left right)
    (paired : Paired height leftPainter rightPainter) (abreast : Abreast origin v w)
    {base column : Nat} (clauses : List (Clause Element)) (bound : heightClauses clauses < height)
    (genuine : ∀ mark ∈ (traceClauses clauses).marks, Genuine mark) :
    Abreast origin (left.clauses leftPainter base clauses v)
      (right.clauses rightPainter column clauses w) := by
  refine abreast.each _ _ 0 clauses fun place clause member x y here => ?_
  obtain ⟨small, shown⟩ := clause_of clauses bound genuine clause member
  refine abreast_clause letters paired (here.of_face ?_ ?_) clause small shown
  · rw [apply_ite Writer.face, Writer.face_newline, ite_self]
  · rw [apply_ite Writer.face, Writer.face_newline, ite_self]

theorem abreast_update (letters : SameLetters left right)
    (paired : Paired height leftPainter rightPainter) (abreast : Abreast origin v w)
    {base column first second : Nat} (keyword : Token) (target : List Element)
    (clauses : List (Clause Element)) (honest : Honest keyword) (drawable : Drawable height target)
    (bound : heightClauses clauses < height)
    (genuine : ∀ mark ∈ (traceClauses clauses).marks, Genuine mark) :
    Abreast origin (left.update leftPainter base first keyword target clauses v)
      (right.update rightPainter column second keyword target clauses w) := by
  refine ((abreast.token letters keyword honest).run paired target rfl drawable).each _ _ 0
    clauses fun place clause member x y here => ?_
  obtain ⟨small, shown⟩ := clause_of clauses bound genuine clause member
  have other : Abreast origin (left.clause leftPainter base clause (x.newline base))
      (right.clause rightPainter column clause (y.newline column)) :=
    abreast_clause letters paired here.newline clause small shown
  split
  · rename_i word entries isWord isList
    obtain ⟨given, body⟩ := clause
    obtain ⟨items, commas⟩ := entries
    simp only at isWord isList
    subst isWord isList
    split
    · simp only [Clause.trace, Trace.marks_append, List.mem_append, or_imp, forall_and,
        Trace.marks_ofTokens, Option.toList_some, List.map_cons, List.map_nil, List.mem_singleton,
        forall_eq, traceClause, Option.isSome_some, if_true] at shown
      rw [heightClause] at small
      exact abreast_itemList paired (here.newline.token letters word shown.1.honest).space items
        (drawable_items items small shown.2)
    · exact other
  · exact other

theorem abreast_delete (letters : SameLetters left right)
    (paired : Paired height leftPainter rightPainter) (abreast : Abreast origin v w)
    {base column : Nat} (keyword : Token) (target : List Element)
    (clauses : List (Clause Element)) (honest : Honest keyword) (drawable : Drawable height target)
    (bound : heightClauses clauses < height)
    (genuine : ∀ mark ∈ (traceClauses clauses).marks, Genuine mark) :
    Abreast origin (left.delete leftPainter base keyword target clauses v)
      (right.delete rightPainter column keyword target clauses w) := by
  refine ((abreast.token letters keyword honest).run paired target rfl drawable).each _ _ 0
    clauses fun place clause member x y here => ?_
  obtain ⟨small, shown⟩ := clause_of clauses bound genuine clause member
  exact abreast_clause letters paired here.newline clause small shown

theorem abreast_columnComment (names : List String) (index : Nat) (item : List Element)
    (abreast : Abreast origin v w) :
    ∃ value, value ⊆ item ∧ (columnComment names index item v).1 = value ∧
      (columnComment names index item w).1 = value ∧
      Abreast origin (columnComment names index item v).2 (columnComment names index item w).2 := by
  unfold columnComment
  cases names[index]? with
  | none => exact ⟨item, fun _ member => member, rfl, rfl, abreast⟩
  | some name =>
    have named : Abreast origin ((v.write ("/* " ++ name ++ " */")).space.markAs openToken)
        ((w.write ("/* " ++ name ++ " */")).space.markAs openToken) := by
      refine abreast.add ("/* " ++ name ++ " */") openToken neutral_open.honest ?_ ?_
      · rw [Writer.face_markAs, Writer.face_space, Writer.face_write]
        rfl
      · rw [Writer.face_markAs, Writer.face_space, Writer.face_write]
        rfl
    simp only
    split
    · rename_i first rest
      split
      · exact ⟨rest, List.subset_cons_self _ _, rfl, rfl, named⟩
      · exact ⟨_, fun _ member => member, rfl, rfl, named⟩
    · exact ⟨item, fun _ member => member, rfl, rfl, named⟩

theorem abreast_entries (paired : Paired height leftPainter rightPainter)
    (abreast : Abreast origin v w) (indent column : Nat) (names : List String)
    {separateLeft separateRight : Nat → Writer → Writer} (commas : Commas separateLeft)
    (others : Commas separateRight) (items : List (List Element))
    (drawable : ∀ item ∈ items, Drawable height item) :
    Abreast origin
      (Writer.each (fun place item u =>
        leftPainter.run {} indent (columnComment names place item (separateLeft place u)).1
          (columnComment names place item (separateLeft place u)).2) 0 items v)
      (Writer.each (fun place item u =>
        rightPainter.run {} column (columnComment names place item (separateRight place u)).1
          (columnComment names place item (separateRight place u)).2) 0 items w) := by
  refine abreast.each _ _ 0 items fun place item member x y here => ?_
  obtain ⟨value, subset, first, second, named⟩ :=
    abreast_columnComment names place item (commas.abreast others place here)
  rw [first, second]
  exact named.run paired value rfl ((drawable item member).of_subset subset)

structure Tuple (height : Nat) (group : Group) : Prop where
  opening : Honest group.opening
  closing : Honest group.closing
  items : ∀ item ∈ group.items, Drawable height item

theorem tuple_of (group : Group) (bound : heightRuns group.items < height)
    (genuine : ∀ mark ∈ group.traceTuple.marks, Genuine mark) : Tuple height group := by
  rw [trace_tuple] at genuine
  simp only [Trace.marks_append, Trace.marks_opening, Trace.marks_closing, List.mem_append,
    List.mem_singleton, or_imp, forall_and, forall_eq] at genuine
  obtain ⟨⟨opening, items⟩, closing⟩ := genuine
  exact ⟨opening.honest, closing.honest, drawable_items group.items bound items⟩

/-- A tuple, as a block or a line: its items between commas and parentheses. -/
theorem tupleBlock_form (sheet : Sheet) (painter : Painter) (base : Nat) (names : List String)
    (group : Group) (w : Writer) :
    ∃ (separate : Nat → Writer → Writer) (indent : Nat) (u x : Writer), Commas separate ∧
      u.face = (punct group.opening w).face ∧
      x.face = (Writer.each (fun place item u =>
        painter.run {} indent (columnComment names place item (separate place u)).1
          (columnComment names place item (separate place u)).2) 0 group.items u).face ∧
      sheet.tupleBlock painter base names group w = punct group.closing x := by
  have opened (line : Nat) :
      (punct group.opening (w.newline line)).face = (punct group.opening w).face := by
    rw [face_punct, face_punct, Writer.face_newline]
  unfold tupleBlock
  simp only
  split
  · exact ⟨_, _, _, _, sheet.commas_block _, opened base, Writer.face_newline base _, rfl⟩
  · exact ⟨_, _, _, _, sheet.commas_listComma _ _, opened _, rfl, rfl⟩

theorem abreast_tupleBlock (paired : Paired height leftPainter rightPainter)
    (abreast : Abreast origin v w) {base column : Nat} (names : List String) (group : Group)
    (tuple : Tuple height group) :
    Abreast origin (left.tupleBlock leftPainter base names group v)
      (right.tupleBlock rightPainter column names group w) := by
  obtain ⟨separate, indent, u, x, commas, opened, drawn, form⟩ :=
    tupleBlock_form left leftPainter base names group v
  obtain ⟨separateToo, indentToo, uToo, xToo, commasToo, openedToo, drawnToo, formToo⟩ :=
    tupleBlock_form right rightPainter column names group w
  have front := (abreast.punct group.opening tuple.opening).of_face opened openedToo
  have items := abreast_entries paired front indent indentToo names commas commasToo group.items
    tuple.items
  rw [form, formToo]
  exact (items.of_face drawn drawnToo).punct group.closing tuple.closing

theorem abreast_row (paired : Paired height leftPainter rightPainter)
    (abreast : Abreast origin v w) {base column : Nat} (names : List String) (row : List Element)
    (bound : heightRun row < height) (genuine : ∀ mark ∈ (traceRow row).marks, Genuine mark) :
    Abreast origin (left.row leftPainter base names row v)
      (right.row rightPainter column names row w) := by
  unfold Sheet.row
  split
  · rename_i inner
    rw [traceRow] at genuine
    split
    · rename_i isSubquery
      rw [if_pos isSubquery] at genuine
      refine abreast.run paired _ rfl ⟨bound, ?_⟩
      simpa [traceRun, Element.trace] using genuine
    · rename_i other
      rw [if_neg other] at genuine
      rw [heightRun, heightRun, Element.height, height_group] at bound
      exact abreast_tupleBlock paired abreast names inner (tuple_of inner (by omega) genuine)
  · rename_i several
    rw [traceRow_of_ne_group row several] at genuine
    exact abreast.run paired row rfl ⟨bound, genuine⟩

theorem genuine_rows (items : List (List Element))
    (genuine : ∀ mark ∈ (traceRows items).marks, Genuine mark) (row : List Element)
    (member : row ∈ items) : ∀ mark ∈ (traceRow row).marks, Genuine mark := by
  intro mark inside
  refine genuine mark ?_
  cases items with
  | nil => simp at member
  | cons first rest =>
    rw [traceRows, Trace.marks_append, marks_traceMoreRows, List.mem_append]
    rcases List.mem_cons.1 member with rfl | later
    · exact .inl inside
    · exact .inr (List.mem_flatMap.2 ⟨row, later, by simp [inside]⟩)

theorem abreast_insertSource (letters : SameLetters left right)
    (paired : Paired height leftPainter rightPainter) (abreast : Abreast origin v w)
    {base column : Nat} (names : List String) (source : InsertSource)
    (bound : source.height < height) (genuine : ∀ mark ∈ source.trace.marks, Genuine mark) :
    Abreast origin (left.insertSource leftPainter base names source v)
      (right.insertSource rightPainter column names source w) := by
  cases source with
  | nothing => exact abreast
  | statement body =>
    rw [InsertSource.height] at bound
    rw [InsertSource.trace] at genuine
    exact paired.statement origin _ _ base column body abreast.newline bound genuine
  | values keyword rows tail =>
    obtain ⟨items, commas⟩ := rows
    rw [InsertSource.height] at bound
    simp only [InsertSource.trace, Trace.marks_append, Trace.marks_ofToken, List.mem_append,
      List.mem_singleton, or_imp, forall_and, forall_eq] at genuine
    obtain ⟨⟨first, rows⟩, last⟩ := genuine
    have separate := commas_quiet (fun u => u) (fun _ => rfl)
    have shown : Abreast origin
        (Writer.each (fun place item u => left.row leftPainter base
          (if left.style.addColumnNameComments then names else []) item
          (if place = 0 then u else punct commaToken u)) 0 items
          (left.token base keyword (v.newline base)))
        (Writer.each (fun place item u => right.row rightPainter column
          (if right.style.addColumnNameComments then names else []) item
          (if place = 0 then u else punct commaToken u)) 0 items
          (right.token column keyword (w.newline column))) := by
      rw [letters.columnNames]
      refine (abreast.newline.token letters keyword first.honest).each _ _ 0 items
        fun place item member x y here => ?_
      have small := heightRun_le_runs member
      exact abreast_row paired (separate.abreast separate place here) _ item (by omega)
        (genuine_rows items rows item member)
    cases tail with
    | none => exact shown
    | some branch =>
      obtain ⟨word, elements⟩ := branch
      rw [heightTail] at bound
      simp only [traceTail, Trace.marks_append, Trace.marks_ofToken, List.mem_append,
        List.mem_singleton, or_imp, forall_and, forall_eq] at last
      have loose : Abreast origin
          (left.looseRun leftPainter base word elements (left.token base word (Writer.newline base
            (Writer.each (fun place item u => left.row leftPainter base
              (if left.style.addColumnNameComments then names else []) item
              (if place = 0 then u else punct commaToken u)) 0 items
              (left.token base keyword (v.newline base))))))
          (right.looseRun rightPainter column word elements (right.token column word
            (Writer.newline column
              (Writer.each (fun place item u => right.row rightPainter column
                (if right.style.addColumnNameComments then names else []) item
                (if place = 0 then u else punct commaToken u)) 0 items
                (right.token column keyword (w.newline column)))))) := by
        refine abreast_looseRun paired (shown.newline.token letters word last.1.honest) word
          elements fun kept => ⟨by omega, ?_⟩
        simpa only [kept, Bool.false_eq_true, if_false] using last.2
      exact loose

theorem abreast_insert (letters : SameLetters left right)
    (paired : Paired height leftPainter rightPainter) (abreast : Abreast origin v w)
    {base column : Nat} (keyword : Token) (target : List Element) (columns : Option Group)
    (source : InsertSource)
    (bound : (Form.insert keyword target columns source).height < height)
    (genuine : ∀ mark ∈ (Form.insert keyword target columns source).trace.marks, Genuine mark) :
    Abreast origin (left.insert leftPainter base keyword target columns source v)
      (right.insert rightPainter column keyword target columns source w) := by
  rw [Form.height] at bound
  simp only [Form.trace, Trace.marks_append, Trace.marks_ofForm, Trace.marks_ofToken,
    List.nil_append, List.mem_append, List.mem_singleton, or_imp, forall_and, forall_eq] at genuine
  obtain ⟨⟨⟨first, targets⟩, names⟩, rest⟩ := genuine
  have front : Abreast origin
      (leftPainter.run {} (base + 7) target (left.token base keyword v))
      (rightPainter.run {} (column + 7) target (right.token column keyword w)) :=
    (abreast.token letters keyword first.honest).run paired target rfl ⟨by omega, targets⟩
  cases columns with
  | none => exact abreast_insertSource letters paired front [] source (by omega) rest
  | some group =>
    rw [heightColumns, height_group] at bound
    exact abreast_insertSource letters paired
      (abreast_tupleBlock paired front [] group (tuple_of group (by omega) names)) _ source
      (by omega) rest

theorem abreast_mergeAction (letters : SameLetters left right)
    (paired : Paired height leftPainter rightPainter) (abreast : Abreast origin v w)
    {base column : Nat} (action : Form) (bound : action.height < height)
    (genuine : ∀ mark ∈ action.traceAction.marks, Genuine mark) :
    Abreast origin (left.mergeAction leftPainter base action v)
      (right.mergeAction rightPainter column action w) := by
  cases action with
  | update keyword target clauses =>
    rw [Form.height] at bound
    simp only [Form.traceAction, Form.isAction, if_true, Form.trace, Trace.marks_append,
      Trace.marks_ofForm, Trace.marks_ofToken, List.nil_append, List.mem_append,
      List.mem_singleton, or_imp, forall_and, forall_eq] at genuine
    obtain ⟨⟨first, targets⟩, rest⟩ := genuine
    exact abreast_update letters paired abreast keyword target clauses first.honest
      ⟨by omega, targets⟩ (by omega) rest
  | insert keyword target columns source =>
    exact abreast_insert letters paired abreast.newline keyword target columns source bound
      genuine
  | raw elements =>
    rw [Form.height] at bound
    exact abreast.run paired elements rfl ⟨bound, genuine⟩
  | query clauses => exact abreast
  | delete keyword target clauses => exact abreast
  | merge keyword target source branches => exact abreast
  | withQueries keyword modifiers definitions commas body => exact abreast
  | create keyword object columns rest => exact abreast
  | grant keyword privileges clauses => exact abreast

theorem abreast_merge (letters : SameLetters left right)
    (paired : Paired height leftPainter rightPainter) (abreast : Abreast origin v w)
    {base column : Nat} (keyword : Token) (target : List Element) (source : MergeSource)
    (branches : List MergeBranch)
    (bound : (Form.merge keyword target source branches).height < height)
    (genuine : ∀ mark ∈ (Form.merge keyword target source branches).trace.marks, Genuine mark) :
    Abreast origin (left.merge leftPainter base keyword target source branches v)
      (right.merge rightPainter column keyword target source branches w) := by
  obtain ⟨usingWord, elements, conditions⟩ := source
  rw [Form.height] at bound
  simp only [Form.trace, Trace.marks_append, Trace.marks_ofForm, Trace.marks_ofToken,
    List.nil_append, List.mem_append, List.mem_singleton, or_imp, forall_and, forall_eq,
    marks_traceMerge] at genuine
  obtain ⟨⟨⟨⟨⟨first, targets⟩, usingMark⟩, sources⟩, links⟩, rest⟩ := genuine
  have targeted : Drawable height target := ⟨by omega, targets⟩
  have sourced : Drawable height elements := ⟨by omega, sources⟩
  refine (abreast_joinConditions letters paired
    (((((abreast.token letters keyword first.honest).run paired target rfl
      targeted).newline).token letters usingWord usingMark.honest).run paired elements rfl sourced)
    conditions (chain_of conditions (by omega) links)).each _ _ 0 branches ?_
  intro place branch member x y here
  have small := heightMerge_le member
  have marks (mark : Mark) (inside : mark ∈ .ofToken branch.keyword ::
      (traceRun branch.head).marks ++ branch.action.traceAction.marks) : Genuine mark :=
    rest mark (List.mem_flatMap.2 ⟨branch, member, inside⟩)
  have honest := (marks (.ofToken branch.keyword) (by simp)).honest
  have words : Drawable height branch.head :=
    ⟨by omega, fun mark inside => marks mark (by simp [inside])⟩
  exact abreast_mergeAction letters paired
    ((here.newline.token letters branch.keyword honest).run paired branch.head rfl words)
    branch.action (by omega) fun mark inside => marks mark (by simp [inside])

theorem abreast_inlineTuple (paired : Paired height leftPainter rightPainter)
    (abreast : Abreast origin v w) {indent column : Nat} (group : Group)
    (tuple : Tuple height group) :
    Abreast origin (inlineTuple leftPainter indent group v)
      (inlineTuple rightPainter column group w) :=
  (abreast_items paired (abreast.space.punct group.opening tuple.opening) {} {} rfl
    (commas_quiet _ Writer.face_space) (commas_quiet _ Writer.face_space) group.items
    tuple.items).punct group.closing tuple.closing

theorem abreast_definitionHead (paired : Paired height leftPainter rightPainter)
    (abreast : Abreast origin v w) {base column : Nat} (head : List Element)
    (bound : heightRun head < height) (genuine : ∀ mark ∈ (traceHead head).marks, Genuine mark) :
    Abreast origin (definitionHead leftPainter base head v)
      (definitionHead rightPainter column head w) := by
  rw [marks_traceHead] at genuine
  refine abreast.each _ _ 0 head fun place element member x y here => ?_
  have small := height_le_of_mem element head member
  have marks (mark : Mark) (inside : mark ∈ element.traceHead.marks) : Genuine mark :=
    genuine mark (List.mem_flatMap.2 ⟨element, member, inside⟩)
  have alone (shown : element.traceHead.marks = element.trace.marks) :
      Abreast origin (leftPainter.run {} base [element] x)
        (rightPainter.run {} column [element] y) := by
    refine here.run paired [element] rfl ⟨by simp [heightRun]; omega, ?_⟩
    intro mark inside
    simp only [traceRun, Trace.append_empty] at inside
    exact marks mark (by rwa [shown])
  cases element with
  | token token => exact alone rfl
  | case inner => exact alone rfl
  | group inner =>
    rw [Element.height, height_group] at small
    simp only
    split
    · rename_i isTuple
      rw [Element.traceHead, if_pos isTuple] at marks
      exact abreast_inlineTuple paired here inner (tuple_of inner (by omega) marks)
    · rename_i other
      refine alone ?_
      rw [Element.traceHead, if_neg other, Element.trace]

theorem abreast_definition (letters : SameLetters left right)
    (paired : Paired height leftPainter rightPainter) (abreast : Abreast origin v w)
    {base column : Nat} (definition : Definition)
    (bound : heightDefinitions [definition] < height)
    (genuine : ∀ mark ∈ definition.trace.marks, Genuine mark) :
    Abreast origin (left.definition leftPainter base definition v)
      (right.definition rightPainter column definition w) := by
  obtain ⟨head, keyword, modifiers, query⟩ := definition
  simp only [heightDefinitions, height_group] at bound
  simp only [Definition.trace, Trace.marks_append, Trace.marks_ofToken, List.mem_append,
    List.mem_singleton, or_imp, forall_and, forall_eq] at genuine
  obtain ⟨⟨⟨heads, named⟩, words⟩, inner⟩ := genuine
  have front : Abreast origin
      (leftPainter.run {} base modifiers
        (left.token base keyword (definitionHead leftPainter base head v)))
      (rightPainter.run {} column modifiers
        (right.token column keyword (definitionHead rightPainter column head w))) :=
    ((abreast_definitionHead paired abreast head (by omega) heads).token letters keyword
      named.honest).run paired modifiers rfl ⟨by omega, words⟩
  obtain ⟨opening, closing⟩ := genuine_group query inner
  unfold Sheet.definition
  simp only
  split
  · rename_i body isSubquery isBody
    rw [isBody, heightBody] at bound
    have inside (mark : Mark) (member : mark ∈ body.trace.marks) : Genuine mark := by
      refine inner mark ?_
      rw [trace_group, if_pos (by simp [isSubquery, isBody]), isBody, traceBody]
      simp [member]
    exact (paired.statement origin _ _ _ _ body
      (front.newline.punct query.opening opening.honest).newline (by omega) inside).newline.punct
      query.closing closing.honest
  · refine front.run paired [.group query] rfl ⟨?_, ?_⟩
    · simp only [heightRun, Element.height, height_group]
      omega
    · simpa [traceRun, Element.trace] using inner

theorem abreast_withQueries (letters : SameLetters left right)
    (paired : Paired height leftPainter rightPainter) (abreast : Abreast origin v w)
    {base column : Nat} (keyword : Token) (modifiers : List Element)
    (definitions : List Definition) (commas : List Token) (body : Statement)
    (bound : (Form.withQueries keyword modifiers definitions commas body).height < height)
    (genuine : ∀ mark ∈ (Form.withQueries keyword modifiers definitions commas body).trace.marks,
      Genuine mark) :
    Abreast origin (left.withQueries leftPainter base keyword modifiers definitions body v)
      (right.withQueries rightPainter column keyword modifiers definitions body w) := by
  rw [Form.height] at bound
  simp only [Form.trace, Trace.marks_append, Trace.marks_ofForm, Trace.marks_ofToken,
    List.nil_append, List.mem_append, List.mem_singleton, or_imp, forall_and, forall_eq] at genuine
  obtain ⟨⟨⟨first, words⟩, found⟩, rest⟩ := genuine
  have shown (definition : Definition) (member : definition ∈ definitions) (mark : Mark)
      (inside : mark ∈ definition.trace.marks) : Genuine mark := by
    refine found mark ?_
    cases definitions with
    | nil => simp at member
    | cons one others =>
      rw [traceDefinitions, Trace.marks_append, marks_traceMoreDefinitions, List.mem_append]
      rcases List.mem_cons.1 member with rfl | later
      · exact .inl inside
      · exact .inr (List.mem_flatMap.2 ⟨definition, later, by simp [inside]⟩)
  have separateLeft := commas_quiet (Writer.newline base) (Writer.face_newline base)
  have separateRight := commas_quiet (Writer.newline column) (Writer.face_newline column)
  have started := abreast.of_face (Writer.face_broken (v.broken || v.inline) v)
    (Writer.face_broken (w.broken || w.inline) w)
  have modified : Drawable height modifiers := ⟨by omega, words⟩
  refine paired.statement origin _ _ base column body (Abreast.newline
    ((((started.token letters keyword first.honest).run paired modifiers rfl modified).each _ _ 0
      definitions fun place definition member x y here => ?_))) (by omega) rest
  have small := heightDefinitions_le member
  exact abreast_definition letters paired (separateLeft.abreast separateRight place here)
    definition (by omega) (shown definition member)

theorem abreast_columnRest (letters : SameLetters left right)
    (paired : Paired height leftPainter rightPainter) (abreast : Abreast origin v w)
    {base column : Nat} (rest : List Element) (drawable : Drawable height rest) :
    Abreast origin (left.columnRest leftPainter base rest v)
      (right.columnRest rightPainter column rest w) := by
  unfold columnRest
  split
  · rename_i word others
    split
    · exact (abreast.typeWord letters word drawable.token.honest).run paired others rfl
        (drawable.of_subset (List.subset_cons_self _ _))
    · exact abreast.run paired _ rfl drawable
  · exact abreast.run paired rest rfl drawable

theorem abreast_column (letters : SameLetters left right)
    (paired : Paired height leftPainter rightPainter) (abreast : Abreast origin v w)
    (base column width other : Nat) (item : List Element) :
    Drawable height item → Abreast origin
      (match item with
        | .token name :: rest =>
          if name.kind.isName then
            left.columnRest leftPainter base rest
              ((left.token (base + 2) name (v.newline (base + 2))).padTo (base + 2 + width + 3))
          else leftPainter.run {} (base + 4) item (v.newline (base + 2))
        | _ => leftPainter.run {} (base + 4) item (v.newline (base + 2)))
      (match item with
        | .token name :: rest =>
          if name.kind.isName then
            right.columnRest rightPainter column rest
              ((right.token (column + 2) name (w.newline (column + 2))).padTo
                (column + 2 + other + 3))
          else rightPainter.run {} (column + 4) item (w.newline (column + 2))
        | _ => rightPainter.run {} (column + 4) item (w.newline (column + 2))) := by
  intro drawable
  split
  · rename_i name rest
    split
    · exact abreast_columnRest letters paired
        (abreast.newline.token letters name drawable.token.honest).padTo rest
        (drawable.of_subset (List.subset_cons_self _ _))
    · exact abreast.newline.run paired _ rfl drawable
  · exact abreast.newline.run paired item rfl drawable

theorem abreast_tableColumns (letters : SameLetters left right)
    (paired : Paired height leftPainter rightPainter) (abreast : Abreast origin v w)
    {base column : Nat} (group : Group) (tuple : Tuple height group) :
    Abreast origin (left.tableColumns leftPainter base group v)
      (right.tableColumns rightPainter column group w) := by
  refine (Abreast.newline (Abreast.each
    (abreast.newline.punct group.opening tuple.opening) _ _ 0 group.items
    fun place item member x y here => ?_)).punct group.closing tuple.closing
  have drawn := abreast_column letters paired here base column (nameWidth group.items)
    (nameWidth group.items) item (tuple.items item member)
  simp only
  split
  · exact drawn.punct commaToken neutral_comma.honest
  · exact drawn

theorem abreast_createColumns (letters : SameLetters left right)
    (paired : Paired height leftPainter rightPainter) (abreast : Abreast origin v w)
    (base column : Nat) (object : List Element) (columns : Option Group) :
    heightColumns columns < height → (∀ mark ∈ (traceColumns columns).marks, Genuine mark) →
    Abreast origin
      (match columns with
        | none => v
        | some group =>
          if object.any (Element.isKeyword ["TABLE"]) then
            left.tableColumns leftPainter base group v
          else inlineTuple leftPainter base group v)
      (match columns with
        | none => w
        | some group =>
          if object.any (Element.isKeyword ["TABLE"]) then
            right.tableColumns rightPainter column group w
          else inlineTuple rightPainter column group w) := by
  intro bound genuine
  cases columns with
  | none => exact abreast
  | some group =>
    rw [heightColumns, height_group] at bound
    have small : heightRuns group.items < height := by omega
    have tuple := tuple_of group small genuine
    simp only
    split
    · exact abreast_tableColumns letters paired abreast group tuple
    · exact abreast_inlineTuple paired abreast group tuple

theorem abreast_create (letters : SameLetters left right)
    (paired : Paired height leftPainter rightPainter) (abreast : Abreast origin v w)
    {base column : Nat} (keyword : Token) (object : List Element) (columns : Option Group)
    (rest : CreateRest) (bound : (Form.create keyword object columns rest).height < height)
    (genuine : ∀ mark ∈ (Form.create keyword object columns rest).trace.marks, Genuine mark) :
    Abreast origin (left.create leftPainter base keyword object columns rest v)
      (right.create rightPainter column keyword object columns rest w) := by
  rw [Form.height] at bound
  simp only [Form.trace, Trace.marks_append, Trace.marks_ofForm, Trace.marks_ofToken,
    List.nil_append, List.mem_append, List.mem_singleton, or_imp, forall_and, forall_eq] at genuine
  obtain ⟨⟨⟨first, objects⟩, listed⟩, others⟩ := genuine
  have front : Abreast origin
      (leftPainter.run {} base object (left.token base keyword v))
      (rightPainter.run {} column object (right.token column keyword w)) :=
    (abreast.token letters keyword first.honest).run paired object rfl ⟨by omega, objects⟩
  have middle := abreast_createColumns letters paired front base column object columns (by omega)
    listed
  cases rest with
  | nothing => exact middle
  | query word body =>
    rw [CreateRest.height] at bound
    simp only [CreateRest.trace, Trace.marks_append, Trace.marks_ofToken, List.mem_append,
      List.mem_singleton, or_imp, forall_and, forall_eq] at others
    exact paired.statement origin _ _ base column body
      (middle.newline.token letters word others.1.honest).newline (by omega) others.2
  | run elements =>
    rw [CreateRest.height] at bound
    exact middle.run paired elements rfl ⟨by omega, others⟩

theorem abreast_grant (letters : SameLetters left right)
    (paired : Paired height leftPainter rightPainter) (abreast : Abreast origin v w)
    {base column : Nat} (keyword : Token) (privileges : List Element)
    (clauses : List (Branch Element))
    (bound : (Form.grant keyword privileges clauses).height < height)
    (genuine : ∀ mark ∈ (Form.grant keyword privileges clauses).trace.marks, Genuine mark) :
    Abreast origin (left.grant leftPainter base keyword privileges clauses v)
      (right.grant rightPainter column keyword privileges clauses w) := by
  rw [Form.height] at bound
  simp only [Form.trace, Trace.marks_append, Trace.marks_ofForm, Trace.marks_ofToken,
    List.nil_append, List.mem_append, List.mem_singleton, or_imp, forall_and, forall_eq,
    marks_traceBranches] at genuine
  obtain ⟨⟨first, granted⟩, rest⟩ := genuine
  have drawable : Drawable height privileges := ⟨by omega, granted⟩
  refine ((abreast.token letters keyword first.honest).run paired privileges rfl drawable).each
    _ _ 0 clauses fun place branch member x y here => ?_
  have small : heightBranches clauses < height := by omega
  obtain ⟨honest, part⟩ := branch_of clauses small rest branch member
  exact (here.newline.token letters branch.keyword honest).run paired branch.elements rfl part

theorem abreast_form (letters : SameLetters left right)
    (paired : Paired height leftPainter rightPainter) (abreast : Abreast origin v w)
    {base column : Nat} (form : Form) (bound : form.height < height)
    (genuine : ∀ mark ∈ form.trace.marks, Genuine mark) :
    Abreast origin (left.form leftPainter base form v) (right.form rightPainter column form w) := by
  cases form with
  | query clauses =>
    rw [Form.height] at bound
    simp only [Form.trace, Trace.marks_append, Trace.marks_ofForm, List.nil_append] at genuine
    exact abreast_clauses letters paired abreast clauses bound genuine
  | insert keyword target columns source =>
    exact abreast_insert letters paired abreast keyword target columns source bound genuine
  | update keyword target clauses =>
    rw [Form.height] at bound
    simp only [Form.trace, Trace.marks_append, Trace.marks_ofForm, Trace.marks_ofToken,
      List.nil_append, List.mem_append, List.mem_singleton, or_imp, forall_and, forall_eq]
      at genuine
    obtain ⟨⟨first, targets⟩, rest⟩ := genuine
    exact abreast_update letters paired abreast keyword target clauses first.honest
      ⟨by omega, targets⟩ (by omega) rest
  | delete keyword target clauses =>
    rw [Form.height] at bound
    simp only [Form.trace, Trace.marks_append, Trace.marks_ofForm, Trace.marks_ofToken,
      List.nil_append, List.mem_append, List.mem_singleton, or_imp, forall_and, forall_eq]
      at genuine
    obtain ⟨⟨first, targets⟩, rest⟩ := genuine
    exact abreast_delete letters paired abreast keyword target clauses first.honest
      ⟨by omega, targets⟩ (by omega) rest
  | merge keyword target source branches =>
    exact abreast_merge letters paired abreast keyword target source branches bound genuine
  | withQueries keyword modifiers definitions commas body =>
    exact abreast_withQueries letters paired abreast keyword modifiers definitions commas body
      bound genuine
  | create keyword object columns rest =>
    exact abreast_create letters paired abreast keyword object columns rest bound genuine
  | grant keyword privileges clauses =>
    exact abreast_grant letters paired abreast keyword privileges clauses bound genuine
  | raw elements =>
    rw [Form.height] at bound
    simp only [Form.trace, Trace.marks_append, Trace.marks_ofForm, List.nil_append] at genuine
    exact abreast.run paired elements rfl ⟨bound, genuine⟩

theorem abreast_statement (letters : SameLetters left right)
    (paired : Paired height leftPainter rightPainter) (abreast : Abreast origin v w)
    {base column : Nat} (statement : Statement) (bound : statement.height ≤ height)
    (genuine : ∀ mark ∈ statement.trace.marks, Genuine mark) :
    Abreast origin (left.statement leftPainter base statement v)
      (right.statement rightPainter column statement w) := by
  obtain ⟨leading, form, trailing⟩ := statement
  rw [Statement.height] at bound
  simp only [Statement.trace, Trace.marks_append, Trace.marks_comments, List.mem_append, or_imp,
    forall_and] at genuine
  obtain ⟨⟨before, inside⟩, after⟩ := genuine
  have honest (tokens : List Token)
      (shown : ∀ mark ∈ tokens.map fun token => Mark.mk token .comment, Genuine mark)
      (token : Token) (member : token ∈ tokens) : Honest token :=
    (shown ⟨token, .comment⟩ (List.mem_map.2 ⟨token, member, rfl⟩)).honest
  refine (abreast_form letters paired (abreast.each _ _ 0 leading
    fun place token member x y here => ?_) form (by omega) inside).each _ _ 0 trailing
    fun place token member x y here => ?_
  · exact (here.comment token (honest leading before token member)).newline
  · exact here.comment token (honest trailing after token member)

theorem paired_painter (letters : SameLetters left right) (height : Nat) :
    Paired height (left.painter height) (right.painter height) := by
  induction height with
  | zero =>
    constructor
    · intro origin v w first second indent column elements abreast types drawable
      exact absurd drawable.bound (Nat.not_lt_zero _)
    · intro origin v w base column body abreast bound
      exact absurd bound (Nat.not_lt_zero _)
  | succ height ih =>
    have halts (sheet : Sheet) (positive : 0 < height) : (sheet.painter height).Halts := by
      cases height with
      | zero => exact absurd positive (Nat.lt_irrefl 0)
      | succ below => exact halts_run sheet (sheet.painter below) _
    constructor
    · intro origin v w first second indent column elements abreast types drawable
      exact abreast_run letters ih (halts left) (halts right) first second types indent column
        false elements drawable abreast
    · intro origin v w base column body abreast bound genuine
      exact abreast_statement letters ih abreast body (by omega) genuine

/-- The texts of a statement have the same ink. -/
theorem ink_render (letters : SameLetters left right) (statement : Statement)
    (terminator : Option Token) (genuine : ∀ mark ∈ statement.trace.marks, Genuine mark) :
    ink (left.render statement terminator).toList =
      ink (right.render statement terminator).toList := by
  have drawn := (paired_painter letters (statement.height + 1)).statement ([], []) {} {} 0 0
    statement ⟨⟨[], rfl, rfl⟩, .inr (by simp)⟩ (by omega) genuine
  obtain ⟨added, first, second⟩ := drawn.written
  have same : (left.finished statement).face.ink = (right.finished statement).face.ink :=
    first.trans second.symm
  unfold render
  cases terminator with
  | none =>
    simp only [Writer.text, String.toList_ofList]
    exact same
  | some token =>
    have leftEnd := congrArg Face.ink (Writer.face_terminate token.text (left.finished statement))
    have rightEnd :=
      congrArg Face.ink (Writer.face_terminate token.text (right.finished statement))
    simp only [Writer.text, String.toList_ofList]
    refine leftEnd.trans (Eq.trans ?_ rightEnd.symm)
    simp only [same]

end Sheet

end SqlLayout.Layout
