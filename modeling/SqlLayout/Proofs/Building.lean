import SqlLayout.Proofs.Carrying

/-! The forms of a statement carry the tokens they are built from, one lemma for each kind
of statement. What a form takes apart by a keyword is put together again by its trace; a
named query may lose a statement in its head and a comma behind it, and an INSERT its
tail. -/
namespace SqlLayout.Tree

open SqlLayout.Layout

theorem trace_group_of_run (group : Group) (other : group.isSubquery = false) :
    group.trace = .opening group.opening ++ traceRun group.elements ++ .closing group.closing := by
  rw [trace_group, if_neg]
  rintro ⟨isSubquery, -⟩
  simp [Group.isSubquery, isSubquery] at other

theorem moves_asTuple (group : Group) (other : group.isSubquery = false) :
    Moves group.trace group.asTuple.traceTuple := by
  rw [trace_group_of_run group other, trace_tuple]
  exact ((Moves.refl _).append (moves_splitItems group.elements)).append (.refl _)

theorem trace_asRow (element : Element) : element.asRow.trace = element.trace := by
  cases element with
  | token token => rfl
  | case inner => rfl
  | group inner =>
    simp only [Element.asRow, Element.trace]
    split
    · rfl
    · rename_i other
      rw [trace_group_of_run inner (by simpa using other), trace_group_of_run _ rfl]
      rfl

theorem traceRun_asRow (row : List Element) : traceRun (row.map Element.asRow) = traceRun row := by
  induction row with
  | nil => rfl
  | cons element rest ih => rw [List.map_cons, traceRun, traceRun, ih, trace_asRow]

theorem moves_row (row : List Element) :
    Moves (traceRun row) (traceRow (row.map Element.asRow)) := by
  by_cases single : ∃ group, row = [.group group]
  · obtain ⟨group, rfl⟩ := single
    rw [List.map_cons, List.map_nil, traceRun, traceRun, Trace.append_empty, Element.trace]
    simp only [Element.asRow, traceRow]
    by_cases isSubquery : group.isSubquery = true
    · simp only [if_pos isSubquery]
      exact .refl _
    · have notTuple : ¬group.asTuple.isSubquery = true := Bool.false_ne_true
      rw [if_neg isSubquery, if_neg notTuple]
      exact moves_asTuple group (by simpa using isSubquery)
  · rw [traceRow_of_ne_group, traceRun_asRow]
    · exact .refl _
    · intro group same
      obtain ⟨element, rest, rfl, shown, nothing⟩ := List.map_eq_cons_iff.1 same
      rw [List.map_eq_nil_iff.1 nothing] at single
      cases element with
      | token token => simp [Element.asRow] at shown
      | group inner => exact single ⟨inner, rfl⟩
      | case inner => simp [Element.asRow] at shown

theorem moves_rows (items : List (List Element)) :
    Moves (traceItems items) (traceRows (items.map (·.map Element.asRow))) := by
  have more (rest : List (List Element)) :
      Moves (traceMore rest) (traceMoreRows (rest.map (·.map Element.asRow))) := by
    induction rest with
    | nil => exact .refl _
    | cons row others ih =>
      rw [List.map_cons, traceMore, traceMoreRows]
      exact ((Moves.refl _).append (moves_row row)).append ih
  cases items with
  | nil => exact .refl _
  | cons row rest =>
    rw [List.map_cons, traceItems, traceRows]
    exact (moves_row row).append (more rest)

theorem moves_takeColumns (elements : List Element) :
    Moves (traceRun elements)
      (traceColumns (takeColumns elements).1 ++ traceRun (takeColumns elements).2) := by
  unfold takeColumns
  split
  · rename_i inner rest
    split
    · rw [traceColumns, Trace.empty_append]
      exact .refl _
    · rename_i other
      rw [traceRun, Element.trace, traceColumns]
      exact (moves_asTuple inner (by simpa using other)).append (.refl _)
  · rw [traceColumns, Trace.empty_append]
    exact .refl _

theorem marks_ne_nil (element : Element) : element.trace.marks ≠ [] := by
  cases element with
  | token token => simp [Element.trace]
  | group inner => simp [Element.trace, trace_group]
  | case inner => simp [Element.trace]

theorem marks_traceRun_ne_nil (elements : List Element) (filled : elements ≠ []) :
    (traceRun elements).marks ≠ [] := by
  cases elements with
  | nil => exact absurd rfl filled
  | cons element rest => simp [traceRun, marks_ne_nil element]

theorem yields_clauses (keywords : List String) (elements : List Element)
    (other : "VALUES" ∉ keywords) :
    (Build.clauses keywords elements).Yields fun clauses =>
      Moves (traceRun elements) (traceClauses clauses) := by
  have moves := moves_splitClauses keywords elements other
  unfold Build.clauses
  simp only
  split
  · exact (Build.Yields.any _).bind fun _ _ => .pure _ moves
  · exact .pure _ moves

/-- A group holds a statement with something in it and nothing else, or a run of elements. -/
def Group.IsTidy (group : Group) : Prop :=
  match group.body with
  | some body => group.isSubquery = true ∧ group.elements = [] ∧ body.trace.marks ≠ []
  | none => group.isSubquery = false

def Tidy (elements : List Element) : Prop :=
  ∀ inner, .group inner ∈ elements → inner.IsTidy

theorem Tidy.of_subset {elements others : List Element} (tidy : Tidy elements)
    (subset : others ⊆ elements) : Tidy others := by
  intro inner member
  exact tidy inner (subset member)

def Reader.Carries (next : Reader) : Prop :=
  ∀ elements, Tidy elements → (next elements).Yields fun statement =>
    Tree.Carries (traceRun elements) statement.trace

theorem takeColumns_subset (elements : List Element) : (takeColumns elements).2 ⊆ elements := by
  unfold takeColumns
  split
  · split
    · exact fun _ member => member
    · exact List.subset_cons_self _ _
  · exact fun _ member => member

/-- The rest behind the values, whether it is drawn or not. -/
def traceWholeTail : Option (Branch Element) → Trace
  | none => .empty
  | some branch => .ofToken branch.keyword ++ traceRun branch.elements

theorem traceRun_takeWhile (stops : Element → Bool) (elements : List Element) :
    traceRun elements =
      traceRun (elements.takeWhile stops) ++ traceRun (elements.dropWhile stops) := by
  rw [← traceRun_append, List.takeWhile_append_dropWhile]

theorem dropWhile_eq_nil_or_cons (property : Token → Bool) (elements : List Element) :
    elements.dropWhile (fun element => !element.isTokenWith property) = [] ∨
      ∃ token rest, property token = true ∧
        elements.dropWhile (fun element => !element.isTokenWith property) =
          .token token :: rest := by
  cases left : elements.dropWhile (fun element => !element.isTokenWith property) with
  | nil => exact .inl rfl
  | cons element rest =>
    right
    have found := List.head?_dropWhile_not (fun element => !element.isTokenWith property) elements
    rw [left] at found
    cases element with
    | token token =>
      refine ⟨token, rest, ?_, rfl⟩
      simpa [Element.isTokenWith, Element.token?] using found
    | group inner => simp [Element.isTokenWith, Element.token?] at found
    | case inner => simp [Element.isTokenWith, Element.token?] at found

theorem moves_valuesSource (keyword : Token) (rest : List Element) :
    ∃ rows tail, valuesSource keyword rest = .values keyword rows tail ∧
      Moves (.ofToken keyword ++ traceRun rest)
        (.ofToken keyword ++ traceRows rows.items ++ traceWholeTail tail) := by
  refine ⟨_, _, rfl, ?_⟩
  rw [traceRun_takeWhile (fun element => !element.isReserved) rest, ← Trace.append_assoc]
  refine .append ((Moves.refl _).append ((moves_splitItems _).trans (moves_rows _))) (.of_eq ?_)
  rcases dropWhile_eq_nil_or_cons Token.isReserved rest with nothing | ⟨word, after, -, found⟩
  · have same : rest.dropWhile (fun element => !element.isReserved) = [] := nothing
    rw [same]
    rfl
  · have same : rest.dropWhile (fun element => !element.isReserved) = .token word :: after := found
    rw [same, traceRun, Element.trace]
    rfl

theorem traceTail_of_keepsTail (keyword word : Token) (target : List Element)
    (columns : Option Group) (rows : Items Element) (tail : Option (Branch Element))
    (keeps : (Form.insert keyword target columns (.values word rows tail)).keepsTail = true) :
    traceTail tail = traceWholeTail tail := by
  cases tail with
  | none => rfl
  | some branch =>
    obtain ⟨first, elements⟩ := branch
    simp only [Form.keepsTail, Bool.or_eq_true, List.isEmpty_iff, Bool.not_eq_true'] at keeps
    rw [traceTail, traceWholeTail]
    rcases keeps with empty | drawn
    · rw [empty, traceRun]
      split <;> rfl
    · rw [if_neg (by simp [drawn])]

theorem yields_insertForm (next : Reader) (reads : next.Carries) (keyword : Token)
    (rest : List Element) (tidy : Tidy rest) :
    (insertForm next keyword rest).Yields fun form =>
      form.isAction = true ∧ Carries (.ofToken keyword ++ traceRun rest) form.trace := by
  unfold insertForm
  simp only
  generalize stops : (fun element : Element =>
    !(element.isGroup || element.isKeyword ["VALUES", "SELECT", "WITH", "DEFAULT"])) = endsTarget
  have columned := moves_takeColumns (rest.dropWhile endsTarget)
  have tidyAfter := (tidy.of_subset (List.dropWhile_sublist endsTarget).subset).of_subset
    (takeColumns_subset (rest.dropWhile endsTarget))
  generalize takeColumns (rest.dropWhile endsTarget) = parts at columned tidyAfter ⊢
  obtain ⟨columns, after⟩ := parts
  simp only at columned tidyAfter ⊢
  have front : Moves (.ofToken keyword ++ traceRun rest)
      (.ofToken keyword ++ traceRun (rest.takeWhile endsTarget) ++ traceColumns columns ++
        traceRun after) := by
    rw [traceRun_takeWhile endsTarget rest, ← Trace.append_assoc,
      Trace.append_assoc _ (traceColumns columns)]
    exact (Moves.refl _).append columned
  -- A source that shows what is left makes a form that shows everything.
  have finish (source : InsertSource) (carries : Carries (traceRun after) source.trace)
      (tail : (Form.insert keyword (rest.takeWhile endsTarget) columns source).keepsTail = true) :
      Carries (.ofToken keyword ++ traceRun rest)
        (Form.insert keyword (rest.takeWhile endsTarget) columns source).trace := by
    have whole := ((Carries.of_moves front).trans ((Carries.refl _).append carries)).form
      (.insert keyword (rest.takeWhile endsTarget) columns source)
      (by rwa [Form.keepsAll_of_not_with _ rfl])
    rw [Form.trace]
    simpa only [Trace.append_assoc] using whole
  have statement : (next after >>= fun body =>
      (pure (.insert keyword (rest.takeWhile endsTarget) columns (.statement body)) :
        Build Form)).Yields
        fun form => form.isAction = true ∧
          Carries (.ofToken keyword ++ traceRun rest) form.trace := by
    refine (reads after tidyAfter).bind fun body carries =>
      .pure _ ⟨rfl, finish (.statement body) ?_ rfl⟩
    rw [InsertSource.trace]
    exact carries
  split
  · refine .pure _ ⟨rfl, finish .nothing ?_ rfl⟩
    rw [InsertSource.trace, traceRun]
    exact .refl _
  · rename_i word values
    split
    · refine .pure _ ⟨rfl, ?_⟩
      obtain ⟨⟨items, commas⟩, tail, made, moves⟩ := moves_valuesSource word values
      have run : traceRun (.token word :: values) = .ofToken word ++ traceRun values := by
        rw [traceRun, Element.trace]
      rw [made]
      rw [← run] at moves
      by_cases keeps : (Form.insert keyword (rest.takeWhile endsTarget) columns
          (.values word ⟨items, commas⟩ tail)).keepsTail = true
      · refine finish _ ?_ keeps
        rw [InsertSource.trace, traceTail_of_keepsTail keyword word _ columns _ tail keeps]
        exact .of_moves moves
      · cases tail with
        | none => exact absurd rfl keeps
        | some branch =>
          simp only [Form.keepsTail, Bool.or_eq_true, List.isEmpty_iff, Bool.not_eq_true',
            not_or, Bool.not_eq_false] at keeps
          have shown := front.trans ((Moves.refl _).append moves)
          simp only [traceWholeTail, ← Trace.append_assoc] at shown
          have lost := Carries.drop shown (.insert keyword (rest.takeWhile endsTarget) columns
            (.values word ⟨items, commas⟩ (some branch)))
            (by simp [Form.keepsAll, Form.keepsTail, keeps])
            (marks_traceRun_ne_nil branch.elements keeps.1) (by simp)
          rw [Form.trace, InsertSource.trace, traceTail, if_pos keeps.2]
          simpa only [Trace.append_assoc] using lost
    · exact statement
  · exact statement

theorem yields_raw (elements : List Element) :
    (pure (.raw elements) : Build Form).Yields fun form =>
      Carries (traceRun elements) form.trace := by
  refine .pure _ ?_
  rw [Form.trace]
  exact (Carries.refl _).form _ rfl

theorem yields_updateForm (keyword : Token) (rest : List Element) :
    (updateForm keyword rest).Yields fun form =>
      Carries (.ofToken keyword ++ traceRun rest) form.trace := by
  have cut := traceRun_takeWhile (fun element => !element.isKeyword ["SET"]) rest
  unfold updateForm
  simp only
  split
  · have raw := yields_raw (.token keyword :: rest)
    rw [traceRun, Element.trace] at raw
    exact raw
  · rename_i after
    refine (yields_clauses updateClauses _ (by decide)).bind fun clauses moves => .pure _ ?_
    rw [Form.trace, cut]
    have whole := (Carries.of_moves ((Moves.refl (.ofToken keyword ++ traceRun (rest.takeWhile
      fun element => !element.isKeyword ["SET"]))).append moves)).form
        (.update keyword (rest.takeWhile fun element => !element.isKeyword ["SET"]) clauses) rfl
    simpa only [Trace.append_assoc] using whole

theorem yields_deleteForm (keyword : Token) (rest : List Element) :
    (deleteForm keyword rest).Yields fun form =>
      Carries (.ofToken keyword ++ traceRun rest) form.trace := by
  unfold deleteForm
  simp only
  generalize (if rest.head?.any (Element.isKeyword ["FROM"]) then 1 else 0) +
    (cutAt (opensClause queryClauses)
      (rest.drop (if rest.head?.any (Element.isKeyword ["FROM"]) then 1 else 0))).1.length = size
  have cut : traceRun rest = traceRun (rest.take size) ++ traceRun (rest.drop size) := by
    rw [← traceRun_append, List.take_append_drop]
  refine (yields_clauses queryClauses _ (by decide)).bind fun clauses moves => .pure _ ?_
  rw [Form.trace, cut]
  have whole := (Carries.of_moves ((Moves.refl (.ofToken keyword ++ traceRun
    (rest.take size))).append moves)).form (.delete keyword (rest.take size) clauses) rfl
  simpa only [Trace.append_assoc] using whole

theorem yields_grantForm (keyword : Token) (rest : List Element) :
    Carries (.ofToken keyword ++ traceRun rest) (grantForm keyword rest).trace := by
  unfold grantForm cutAtWords
  simp only
  rw [Form.trace, traceRun_cutAt (fun token _ => token.isKeyword ["ON", "TO", "FROM"]) rest]
  have whole := (Carries.refl (.ofToken keyword ++
    (traceRun (cutAt (fun token _ => token.isKeyword ["ON", "TO", "FROM"]) rest).1 ++
      traceBranches (cutAt (fun token _ => token.isKeyword ["ON", "TO", "FROM"]) rest).2))).form
    (.grant keyword (cutAt (fun token _ => token.isKeyword ["ON", "TO", "FROM"]) rest).1
      (cutAt (fun token _ => token.isKeyword ["ON", "TO", "FROM"]) rest).2) rfl
  simpa only [Trace.append_assoc] using whole

theorem yields_createForm (next : Reader) (reads : next.Carries) (keyword : Token)
    (rest : List Element) (tidy : Tidy rest) :
    (createForm next keyword rest).Yields fun form =>
      Carries (.ofToken keyword ++ traceRun rest) form.trace := by
  unfold createForm
  simp only
  generalize stops : (fun element : Element => !(element.isGroup || element.isKeyword ["AS"])) =
    endsObject
  have columned := moves_takeColumns (rest.dropWhile endsObject)
  have tidyAfter := (tidy.of_subset (List.dropWhile_sublist endsObject).subset).of_subset
    (takeColumns_subset (rest.dropWhile endsObject))
  generalize takeColumns (rest.dropWhile endsObject) = parts at columned tidyAfter ⊢
  obtain ⟨columns, after⟩ := parts
  simp only at columned tidyAfter ⊢
  have front : Moves (.ofToken keyword ++ traceRun rest)
      (.ofToken keyword ++ traceRun (rest.takeWhile endsObject) ++ traceColumns columns ++
        traceRun after) := by
    rw [traceRun_takeWhile endsObject rest, ← Trace.append_assoc,
      Trace.append_assoc _ (traceColumns columns)]
    exact (Moves.refl _).append columned
  have finish (left : CreateRest) (carries : Carries (traceRun after) left.trace) :
      Carries (.ofToken keyword ++ traceRun rest)
        (Form.create keyword (rest.takeWhile endsObject) columns left).trace := by
    have whole := ((Carries.of_moves front).trans ((Carries.refl _).append carries)).form
      (.create keyword (rest.takeWhile endsObject) columns left) rfl
    rw [Form.trace]
    simpa only [Trace.append_assoc] using whole
  have unread : Carries (traceRun after) (CreateRest.run after).trace := by
    rw [CreateRest.trace]
    exact .refl _
  split
  · split
    · refine .pure _ (finish .nothing ?_)
      rw [CreateRest.trace, traceRun]
      exact .refl _
    · rename_i word query
      split
      · have tidy := tidyAfter.of_subset (List.subset_cons_self _ _)
        refine (reads query tidy).bind fun body carries => .pure _ (finish (.query word body) ?_)
        rw [CreateRest.trace, traceRun, Element.trace]
        exact (Carries.refl _).append carries
      · exact .pure _ (finish _ unread)
    · exact .pure _ (finish _ unread)
  · have raw := yields_raw (.token keyword :: rest)
    rw [traceRun, Element.trace] at raw
    exact raw

def StartsWithToken (elements : List Element) : Prop :=
  elements = [] ∨ ∃ token rest, elements = .token token :: rest

theorem startsWithToken_dropWhile (words : List String) (elements : List Element) :
    StartsWithToken (elements.dropWhile fun element => !element.isKeyword words) := by
  rcases dropWhile_eq_nil_or_cons (Token.isKeyword · words) elements with
    nothing | ⟨token, rest, -, found⟩
  · exact .inl nothing
  · exact .inr ⟨token, rest, found⟩

theorem mergeParts_flatten (elements : List Element) (starts : StartsWithToken elements) :
    (mergeParts elements).flatMap (fun part => .token part.1 :: (part.2.1 ++ part.2.2)) =
      elements := by
  fun_induction mergeParts elements with
  | case1 keyword rest isThen isWhen afterHead head actions ih =>
    have onward := ih (startsWithToken_dropWhile ["WHEN"] actions)
    have action : actions.takeWhile (!isWhen ·) ++ actions.dropWhile (!isWhen ·) = actions :=
      List.takeWhile_append_dropWhile
    have words : head ++ actions = rest := by
      simp only [head, actions, List.append_assoc, List.take_append_drop]
      exact List.takeWhile_append_dropWhile
    rw [List.flatMap_cons, onward]
    simp only [List.cons_append, List.append_assoc, action, words]
  | case2 elements other =>
    rcases starts with nothing | ⟨token, rest, found⟩
    · rw [nothing]
      rfl
    · exact absurd found (other token rest)

theorem traceRun_token (token : Token) (rest : List Element) :
    traceRun (.token token :: rest) = .ofToken token ++ traceRun rest := by
  rw [traceRun, Element.trace]

theorem yields_mergeAction (next : Reader) (reads : next.Carries) (elements : List Element)
    (tidy : Tidy elements) :
    (mergeAction next elements).Yields fun form =>
      form.isAction = true ∧ Carries (traceRun elements) form.trace := by
  have raw : (pure (.raw elements) : Build Form).Yields fun form =>
      form.isAction = true ∧ Carries (traceRun elements) form.trace := by
    refine .pure _ ⟨rfl, ?_⟩
    rw [Form.trace]
    exact (Carries.refl _).form _ rfl
  unfold mergeAction
  split
  · rename_i keyword rest
    split
    · refine (yields_clauses (updateClauses ++ ["DELETE"]) rest (by decide)).bind
        fun clauses moves => .pure _ ⟨rfl, ?_⟩
      have whole := (Carries.of_moves ((Moves.refl (.ofToken keyword)).append moves)).form
        (.update keyword [] clauses) rfl
      rw [traceRun_token, Form.trace, traceRun]
      simpa only [Trace.append_assoc, Trace.empty_append] using whole
    split
    · rw [traceRun_token]
      exact yields_insertForm next reads keyword rest
        (tidy.of_subset (List.subset_cons_self _ _))
    · exact raw
  · exact raw

theorem yields_mergeBranches (next : Reader) (reads : next.Carries)
    (parts : List (Token × List Element × List Element))
    (tidy : Tidy (parts.flatMap fun part => .token part.1 :: (part.2.1 ++ part.2.2))) :
    (mergeBranches next parts).Yields fun branches =>
      Carries (traceRun (parts.flatMap fun part => .token part.1 :: (part.2.1 ++ part.2.2)))
        (traceMerge branches) := by
  induction parts with
  | nil =>
    refine .pure _ ?_
    rw [traceMerge]
    exact .refl _
  | cons part rest ih =>
    obtain ⟨keyword, head, action⟩ := part
    have tidyAction : Tidy action := by
      refine tidy.of_subset fun element member => ?_
      simp [member]
    have tidyRest : Tidy (rest.flatMap fun part => .token part.1 :: (part.2.1 ++ part.2.2)) := by
      refine tidy.of_subset fun element member => ?_
      rw [List.flatMap_cons]
      exact List.mem_append_right _ member
    refine (yields_mergeAction next reads action tidyAction).bind fun form => ?_
    rintro ⟨isAction, acted⟩
    refine (ih tidyRest).bind fun others carried => .pure _ ?_
    have whole := ((Carries.refl (.ofToken keyword ++ traceRun head)).append acted).append carried
    rw [traceMerge, if_pos isAction, List.flatMap_cons, List.cons_append, traceRun, Element.trace,
      traceRun_append, traceRun_append]
    simpa only [Trace.append_assoc] using whole

theorem yields_mergeForm (next : Reader) (reads : next.Carries) (keyword : Token)
    (rest : List Element) (tidy : Tidy rest) :
    (mergeForm next keyword rest).Yields fun form =>
      Carries (.ofToken keyword ++ traceRun rest) form.trace := by
  have cut := traceRun_takeWhile (fun element => !element.isKeyword ["USING"]) rest
  unfold mergeForm
  simp only
  split
  · rename_i usingWord after found
    rw [found, traceRun_token,
      traceRun_takeWhile (fun element => !element.isKeyword ["ON", "WHEN"]) after] at cut
    -- The conditions and the branches are what is left behind the source.
    have inside : rest.dropWhile (fun element => !element.isKeyword ["USING"]) ⊆ rest :=
      List.dropWhile_subset _
    rw [found, List.cons_subset] at inside
    have finish (conditions : List (Condition Element)) (branches : List Element)
        (subset : branches ⊆ after) (starts : StartsWithToken branches)
        (shown : traceRun (after.dropWhile fun element => !element.isKeyword ["ON", "WHEN"]) =
          traceConditions conditions ++ traceRun branches) :
        (do
          let found ← mergeBranches next (mergeParts branches)
          return Form.merge keyword (rest.takeWhile fun element => !element.isKeyword ["USING"])
            ⟨usingWord, after.takeWhile fun element => !element.isKeyword ["ON", "WHEN"],
              conditions⟩ found : Build Form).Yields fun form =>
          Carries (.ofToken keyword ++ traceRun rest) form.trace := by
      have parted := yields_mergeBranches next reads (mergeParts branches)
      rw [mergeParts_flatten branches starts] at parted
      have tidyBranches := (tidy.of_subset inside.2).of_subset subset
      refine (parted tidyBranches).bind fun found carried => .pure _ ?_
      rw [Form.trace, cut, shown]
      have whole := ((Carries.refl (.ofToken keyword ++
        traceRun (rest.takeWhile fun element => !element.isKeyword ["USING"]) ++
        .ofToken usingWord ++
        traceRun (after.takeWhile fun element => !element.isKeyword ["ON", "WHEN"]) ++
        traceConditions conditions)).append carried).form
        (.merge keyword (rest.takeWhile fun element => !element.isKeyword ["USING"])
          ⟨usingWord, after.takeWhile fun element => !element.isKeyword ["ON", "WHEN"], conditions⟩
          found) rfl
      simpa only [Trace.append_assoc] using whole
    rcases startsWithToken_dropWhile ["ON", "WHEN"] after with nothing | ⟨word, others, left⟩
    · rw [nothing] at finish ⊢
      exact finish [] [] (List.nil_subset _) (.inl rfl) (by rw [traceConditions, Trace.empty_append])
    · have within : after.dropWhile (fun element => !element.isKeyword ["ON", "WHEN"]) ⊆ after :=
        List.dropWhile_subset _
      rw [left] at finish within ⊢
      simp only
      split
      · refine finish _ _ (fun element member => within (List.mem_cons_of_mem _
          ((List.dropWhile_sublist _).subset member))) (startsWithToken_dropWhile _ _) ?_
        rw [traceConditions_after, traceRun_token, Trace.append_assoc, ← traceRun_takeWhile]
      · refine finish [] (.token word :: others) within (.inr ⟨word, others, rfl⟩) ?_
        rw [traceConditions, Trace.empty_append]
  · have raw := yields_raw (.token keyword :: rest)
    rw [traceRun_token] at raw
    exact raw

theorem Keeps.nothing (trace : Trace) : Keeps trace .empty where
  order := ⟨[], List.nil_sublist _, .refl _⟩
  members := by
    intro mark member
    simp at member

theorem moves_comma (token : Token) (isComma : token.kind = .comma) :
    Moves (.ofToken token) (.ofToken commaToken) where
  forms := rfl
  order := by
    have same : (Trace.ofToken token).faces = (Trace.ofToken commaToken).faces := by
      simp [Trace.faces, Mark.face, Mark.ofToken, isComma, commaMark, commaToken]
    rw [same]
    exact .refl _
  members := by
    intro mark member
    rw [Trace.marks_ofToken, List.mem_singleton] at member
    exact .inl member

/-- A list of names in the head of a named query is kept, a statement there is not drawn. -/
theorem carriesIf_asTuple (group : Group) (tidy : group.IsTidy) :
    CarriesIf (group.body.isNone = true) group.trace group.asTuple.traceTuple := by
  unfold Group.IsTidy at tidy
  cases held : group.body with
  | none =>
    rw [held] at tidy
    simpa using CarriesIf.of_carries (.of_moves (moves_asTuple group tidy))
  | some body =>
    rw [held] at tidy
    obtain ⟨isSubquery, nothing, filled⟩ := tidy
    have source : group.trace =
        .opening group.opening ++ body.trace ++ .closing group.closing := by
      rw [trace_group, if_pos ⟨by simpa [Group.isSubquery] using isSubquery, by simp [held]⟩, held,
        traceBody]
    have empty : group.asTuple.traceTuple =
        .opening group.opening ++ .empty ++ .closing group.closing := by
      rw [trace_tuple]
      simp [Group.asTuple, nothing, splitItems, traceItems]
    rw [source, empty]
    refine ⟨((Keeps.of_moves (.refl _)).append (.nothing _)).append (.of_moves (.refl _)),
      fun kept => by simp at kept, fun _ => ?_⟩
    have positive := List.length_pos_iff.2 filled
    simp only [Trace.marks_append, Trace.marks_opening, Trace.marks_closing, Trace.marks_empty,
      List.length_append, List.length_cons, List.length_nil]
    omega

theorem carriesIf_head (head : List Element) (tidy : Tidy head) :
    CarriesIf (head.all Element.fitsHead = true) (traceRun head)
      (traceHead (head.map Element.asTuple)) := by
  induction head with
  | nil => simpa [traceRun, traceHead] using CarriesIf.of_carries (.refl .empty)
  | cons element rest ih =>
    have onward := ih (tidy.of_subset (List.subset_cons_self _ _))
    rw [List.map_cons, traceRun, List.all_cons, Bool.and_eq_true]
    cases element with
    | token token =>
      have same : (Element.token token).asTuple = .token token := rfl
      rw [same, Element.trace, traceHead]
      simpa [Element.fitsHead] using onward.behind (.refl (.ofToken token))
    | group inner =>
      have isTuple : inner.asTuple.role = .tuple := rfl
      rw [Element.asTuple, Element.trace, traceHead, if_pos isTuple]
      exact (carriesIf_asTuple inner (tidy inner (by simp))).append onward
    | case inner =>
      have same : (Element.case inner).asTuple = .case inner := rfl
      rw [same, Element.trace, traceHead]
      simpa [Element.fitsHead] using onward.behind (.refl (.ofToken inner.keyword ++
        traceRun inner.operand ++ traceBranches inner.branches ++ .ofToken inner.closing))

theorem all_fitsHead_asTuple (head : List Element) :
    (head.map Element.asTuple).all Element.fitsHead = head.all Element.fitsHead := by
  rw [List.all_map]
  refine List.all_congr rfl fun element => ?_
  cases element <;> rfl

theorem carriesIf_definition (elements : List Element) (tidy : Tidy elements)
    (found : Definition) (after : List Element)
    (step : definition elements = .ok (found, after)) :
    after ⊆ elements ∧
      CarriesIf (found.keepsHead = true) (traceRun elements) (found.trace ++ traceRun after) := by
  unfold definition at step
  simp only at step
  split at step
  · rename_i keyword tail afterAs
    split at step
    · rename_i query rest afterModifiers
      simp only [Except.ok.injEq, Prod.mk.injEq] at step
      obtain ⟨rfl, rfl⟩ := step
      have first : elements.dropWhile (fun element => !element.isKeyword ["AS"]) ⊆ elements :=
        List.dropWhile_subset _
      have second : tail.dropWhile (fun element =>
          element.isText "NOT" || element.isText "MATERIALIZED") ⊆ tail :=
        List.dropWhile_subset _
      rw [afterAs, List.cons_subset] at first
      rw [afterModifiers, List.cons_subset] at second
      refine ⟨fun element member => first.2 (second.2 member), ?_⟩
      have head := carriesIf_head (elements.takeWhile fun element => !element.isKeyword ["AS"])
        (tidy.of_subset (List.takeWhile_sublist _).subset)
      rw [traceRun_takeWhile (fun element => !element.isKeyword ["AS"]) elements, afterAs,
        traceRun_token, traceRun_takeWhile
          (fun element => element.isText "NOT" || element.isText "MATERIALIZED") tail,
        afterModifiers, traceRun, Element.trace, Definition.trace, Definition.keepsHead,
        all_fitsHead_asTuple]
      have whole := head.append (.of_carries (.refl (.ofToken keyword ++
        (traceRun (tail.takeWhile
          fun element => element.isText "NOT" || element.isText "MATERIALIZED") ++
          (query.trace ++ traceRun rest)))))
      simpa only [Trace.append_assoc, and_true] using whole
    · simp at step
  · simp at step

theorem keepsDefinitions_single (definition : Definition) :
    keepsDefinitions [definition] [] = definition.keepsHead := by
  simp [keepsDefinitions]

theorem keepsDefinitions_cons (first second : Definition) (others : List Definition)
    (comma : Token) (commas : List Token) :
    keepsDefinitions (first :: second :: others) (comma :: commas) =
      (first.keepsHead && keepsDefinitions (second :: others) commas) := by
  cases commas <;> simp [keepsDefinitions, Bool.and_assoc]

theorem carriesIf_definitions (elements : List Element) (tidy : Tidy elements)
    (found : List Definition) (commas : List Token) (after : List Element)
    (step : definitions elements = .ok (found, commas, after)) :
    after ⊆ elements ∧
      CarriesIf (keepsDefinitions found commas = true) (traceRun elements)
        (traceDefinitions found ++ traceRun after) := by
  fun_induction definitions elements generalizing found commas after with
  | case1 elements empty =>
    simp only [Except.ok.injEq, Prod.mk.injEq] at step
    obtain ⟨rfl, rfl, rfl⟩ := step
    rw [List.isEmpty_iff.1 empty, traceDefinitions, Trace.empty_append]
    exact ⟨List.Subset.refl _, by simpa [keepsDefinitions] using CarriesIf.of_carries (.refl _)⟩
  | case2 elements filled misfit failed => simp at step
  | case3 elements filled first comma rest one isComma misfit failed ih => simp at step
  | case4 elements filled first comma rest one isComma others moreCommas left more ih =>
    simp only [Except.ok.injEq, Prod.mk.injEq] at step
    obtain ⟨rfl, rfl, rfl⟩ := step
    obtain ⟨subset, head⟩ := carriesIf_definition elements tidy first _ one
    obtain ⟨subsetRest, onward⟩ := ih
      (tidy.of_subset fun element member => subset (List.mem_cons_of_mem _ member)) _ _ _ more
    refine ⟨fun element member => subset (List.mem_cons_of_mem _ (subsetRest member)), ?_⟩
    rw [traceRun_token] at head
    rw [traceDefinitions, Trace.append_assoc]
    -- A comma behind the last named query is not drawn.
    cases others with
    | nil =>
      have lost : CarriesIf False (.ofToken comma ++ traceRun rest)
          (traceMoreDefinitions [] ++ traceRun left) := by
        rw [traceMoreDefinitions]
        rw [traceDefinitions] at onward
        refine .lost ((Keeps.nothing _).append onward.toKeeps) ?_
        have bound := onward.length_le
        simp only [Trace.marks_append, Trace.marks_empty, Trace.marks_ofToken, List.length_append,
          List.length_cons, List.length_nil] at bound ⊢
        omega
      have whole := head.trans (lost.behind (.refl first.trace))
      simpa [keepsDefinitions] using whole
    | cons second others =>
      have comma := onward.behind (.of_moves (moves_comma comma isComma))
      rw [traceDefinitions] at comma
      have whole := head.trans (comma.behind (.refl first.trace))
      rw [keepsDefinitions_cons, Bool.and_eq_true, traceMoreDefinitions]
      simpa only [Trace.append_assoc] using whole
  | case5 elements filled first comma rest one isComma =>
    simp only [Except.ok.injEq, Prod.mk.injEq] at step
    obtain ⟨rfl, rfl, rfl⟩ := step
    rw [traceDefinitions, traceMoreDefinitions, Trace.append_empty, keepsDefinitions_single]
    exact carriesIf_definition elements tidy first _ one
  | case6 elements filled first rest other one =>
    simp only [Except.ok.injEq, Prod.mk.injEq] at step
    obtain ⟨rfl, rfl, rfl⟩ := step
    rw [traceDefinitions, traceMoreDefinitions, Trace.append_empty, keepsDefinitions_single]
    exact carriesIf_definition elements tidy first _ one

theorem yields_withForm (next : Reader) (reads : next.Carries) (keyword : Token)
    (rest : List Element) (tidy : Tidy rest) :
    (withForm next keyword rest).Yields fun form =>
      Carries (.ofToken keyword ++ traceRun rest) form.trace := by
  have finish (modifiers others : List Element) (whole : rest = modifiers ++ others) :
      (do
        let parts ← definitions others
        let body ← next parts.2.2
        return Form.withQueries keyword modifiers parts.1 parts.2.1 body : Build Form).Yields
          fun form => Carries (.ofToken keyword ++ traceRun rest) form.trace := by
    have tidyOthers : Tidy others := by
      refine tidy.of_subset ?_
      rw [whole]
      exact List.subset_append_right _ _
    refine (Build.Yields.lift (definitions others) fun parts step =>
      carriesIf_definitions others tidyOthers parts.1 parts.2.1 parts.2.2 step).bind ?_
    rintro ⟨found, commas, after⟩ ⟨subset, kept⟩
    refine (reads after (tidyOthers.of_subset subset)).bind fun body carries => .pure _ ?_
    have shown := (kept.trans (.of_carries ((Carries.refl (traceDefinitions found)).append
      carries))).behind (.refl (.ofToken keyword ++ traceRun modifiers))
    have named := shown.form (.withQueries keyword modifiers found commas body)
      (by simp [Form.keepsAll, Form.keepsTail, Form.keepsQueries]) (by simp)
    rw [Form.trace, whole, traceRun_append]
    simpa only [Trace.append_assoc] using named
  unfold withForm
  simp only
  split
  · exact finish _ _ (List.take_append_drop 1 rest).symm
  · exact finish [] rest rfl

theorem yields_query (elements : List Element) :
    (do return .query (← Build.clauses queryClauses elements) : Build Form).Yields fun form =>
      Carries (traceRun elements) form.trace := by
  refine (yields_clauses queryClauses elements (by decide)).bind fun clauses moves => .pure _ ?_
  rw [Form.trace]
  exact (Carries.of_moves moves).form _ rfl

theorem yields_formOf (next : Reader) (reads : next.Carries) (elements : List Element)
    (tidy : Tidy elements) :
    (formOf next elements).Yields fun form => Carries (traceRun elements) form.trace := by
  have raw := yields_raw elements
  have query := yields_query elements
  unfold formOf
  split
  · rename_i first rest
    have tidyRest : Tidy rest := tidy.of_subset (List.subset_cons_self _ _)
    rw [traceRun_token] at raw query ⊢
    split
    · exact yields_withForm next reads first rest tidyRest
    split
    · exact query
    split
    · exact (yields_insertForm next reads first rest tidyRest).mono fun _ both => both.2
    split
    · exact yields_updateForm first rest
    split
    · exact yields_deleteForm first rest
    split
    · exact yields_mergeForm next reads first rest tidyRest
    split
    · exact yields_createForm next reads first rest tidyRest
    split
    · exact .pure _ (yields_grantForm first rest)
    · exact raw
  · split
    · exact query
    · exact raw
  · exact raw

theorem trace_comments (elements : List Element)
    (comments : ∀ element ∈ elements, element.isComment = true) :
    Trace.comments (tokensOf elements) = traceRun elements := by
  induction elements with
  | nil => rfl
  | cons element rest ih =>
    have onward := ih fun other member => comments other (List.mem_cons_of_mem _ member)
    have head := comments element (by simp)
    cases element with
    | token token =>
      have isComment : token.kind = .comment := by
        simpa [Element.isComment, Element.isTokenWith, Element.token?, Token.isComment] using head
      rw [traceRun_token, ← onward]
      simp [tokensOf, Element.token?, Trace.ext_iff, Mark.ofToken, isComment]
    | group inner => simp [Element.isComment, Element.isTokenWith, Element.token?] at head
    | case inner => simp [Element.isComment, Element.isTokenWith, Element.token?] at head

theorem yields_statementWith (next : Reader) (reads : next.Carries) :
    Reader.Carries (statementWith next) := by
  intro elements tidy
  unfold statementWith
  simp only
  have parts := splitTrailing_append Element.isComment (elements.dropWhile Element.isComment)
  have trailing := belongs_of_mem_trailing Element.isComment
    (elements.dropWhile Element.isComment)
  generalize splitTrailing Element.isComment (elements.dropWhile Element.isComment) = split
    at parts trailing ⊢
  obtain ⟨body, after⟩ := split
  simp only at parts trailing ⊢
  have tidyBody : Tidy body := by
    refine tidy.of_subset fun element member => (List.dropWhile_sublist Element.isComment).subset ?_
    rw [← parts]
    exact List.mem_append_left _ member
  refine (yields_formOf next reads body tidyBody).bind fun form carries => .pure _ ?_
  rw [Statement.trace, trace_comments _ trailing,
    trace_comments _ (List.all_eq_true.1 List.all_takeWhile),
    traceRun_takeWhile Element.isComment elements, ← parts, traceRun_append, Trace.append_assoc]
  exact (Carries.refl _).append (carries.append (.refl _))

theorem trace_ofForm (form : Form) : (Statement.ofForm form).trace = form.trace := by
  rw [Statement.ofForm, Statement.trace]
  simp [Trace.ext_iff]

theorem carries_statementFuel (fuel : Nat) : Reader.Carries (statementFuel fuel) := by
  induction fuel with
  | zero =>
    intro elements tidy
    refine .pure _ ?_
    rw [trace_ofForm, Form.trace]
    exact (Carries.refl _).form _ rfl
  | succ fuel ih => exact yields_statementWith _ ih

theorem carries_statementOf : Reader.Carries statementOf := by
  intro elements
  exact carries_statementFuel (elements.length + 1) elements

end SqlLayout.Tree
