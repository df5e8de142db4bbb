import SqlLayout.Proofs.Matching

/-! What building does besides giving a value. Statements are put together by steps that never
fail, leave the open parentheses as they are and note nothing; only the named queries behind a
WITH may have no shape. So what holds of the single steps, and of one step after another,
holds of building a statement, with its named queries or in a run without WITH. -/
namespace SqlLayout.Tree

structure Build.Closed (property : (α : Type) → Build α → Prop) : Prop where
  pure : ∀ {α : Type} (value : α), property α (Pure.pure value)
  bind : ∀ {α β : Type} (build : Build α) (next : α → Build β), property α build →
    (∀ value, property β (next value)) → property β (build >>= next)
  clauses : ∀ keywords elements, property _ (Build.clauses keywords elements)

/-- A run without WITH, or anything at all if the named queries have the property too. -/
def Spared (property : (α : Type) → Build α → Prop) (elements : List Element) : Prop :=
  (∀ token, .token token ∈ elements → token.isKeyword ["WITH"] = false) ∨
    ∀ others, property _ (liftM (definitions others) : Build _)

section

variable {property : (α : Type) → Build α → Prop}

theorem Spared.of_subset {elements others : List Element} (spared : Spared property elements)
    (subset : others ⊆ elements) : Spared property others :=
  spared.imp_left fun plain token member => plain token (subset member)

def Reader.Keeps (next : Reader) (property : (α : Type) → Build α → Prop) : Prop :=
  ∀ elements, Spared property elements → property _ (next elements)

variable {next : Reader} (closed : Build.Closed property) (reads : next.Keeps property)
include closed

theorem closed_updateForm (keyword : Token) (rest : List Element) :
    property _ (updateForm keyword rest) := by
  unfold updateForm
  simp only
  split
  · exact closed.pure _
  · exact closed.bind _ _ (closed.clauses _ _) fun _ => closed.pure _

theorem closed_deleteForm (keyword : Token) (rest : List Element) :
    property _ (deleteForm keyword rest) :=
  closed.bind _ _ (closed.clauses _ _) fun _ => closed.pure _

include reads

theorem closed_insertForm (keyword : Token) (rest : List Element)
    (spared : Spared property rest) : property _ (insertForm next keyword rest) := by
  unfold insertForm
  simp only
  generalize (fun element : Element =>
    !(element.isGroup || element.isKeyword ["VALUES", "SELECT", "WITH", "DEFAULT"])) = endsTarget
  have inside := List.Subset.trans (takeColumns_subset (rest.dropWhile endsTarget))
    (List.dropWhile_sublist endsTarget).subset
  generalize takeColumns (rest.dropWhile endsTarget) = parts at inside ⊢
  obtain ⟨columns, after⟩ := parts
  have statement := closed.bind _ (fun body => (pure (.insert keyword (rest.takeWhile endsTarget)
    columns (.statement body)) : Build Form)) (reads after (spared.of_subset inside))
    fun _ => closed.pure _
  simp only
  split
  · exact closed.pure _
  · split
    · exact closed.pure _
    · exact statement
  · exact statement

theorem closed_createForm (keyword : Token) (rest : List Element)
    (spared : Spared property rest) : property _ (createForm next keyword rest) := by
  unfold createForm
  simp only
  generalize (fun element : Element => !(element.isGroup || element.isKeyword ["AS"])) = endsObject
  have inside := List.Subset.trans (takeColumns_subset (rest.dropWhile endsObject))
    (List.dropWhile_sublist endsObject).subset
  generalize takeColumns (rest.dropWhile endsObject) = parts at inside ⊢
  obtain ⟨columns, after⟩ := parts
  simp only
  split
  · split
    · exact closed.pure _
    · rename_i word query
      split
      · exact closed.bind _ _ (reads query (spared.of_subset
          (List.Subset.trans (List.subset_cons_self _ _) inside))) fun _ => closed.pure _
      · exact closed.pure _
    · exact closed.pure _
  · exact closed.pure _

theorem closed_mergeAction (elements : List Element) (spared : Spared property elements) :
    property _ (mergeAction next elements) := by
  unfold mergeAction
  split
  · rename_i keyword rest
    split
    · exact closed.bind _ _ (closed.clauses _ _) fun _ => closed.pure _
    split
    · exact closed_insertForm closed reads keyword rest
        (spared.of_subset (List.subset_cons_self _ _))
    · exact closed.pure _
  · exact closed.pure _

theorem closed_mergeBranches (parts : List (Token × List Element × List Element))
    (spared : Spared property (parts.flatMap fun part =>
      .token part.1 :: (part.2.1 ++ part.2.2))) :
    property _ (mergeBranches next parts) := by
  induction parts with
  | nil => exact closed.pure _
  | cons part rest ih =>
    obtain ⟨keyword, head, action⟩ := part
    rw [List.flatMap_cons] at spared
    have acts := closed_mergeAction closed reads action
      (spared.of_subset fun element member => by simp [member])
    exact closed.bind _ _ acts fun _ => closed.bind _ _
      (ih (spared.of_subset (List.subset_append_right _ _))) fun _ => closed.pure _

theorem closed_mergeForm (keyword : Token) (rest : List Element)
    (spared : Spared property rest) : property _ (mergeForm next keyword rest) := by
  unfold mergeForm
  simp only
  split
  · rename_i usingWord after found
    have inside : rest.dropWhile (fun element => !element.isKeyword ["USING"]) ⊆ rest :=
      List.dropWhile_subset _
    rw [found, List.cons_subset] at inside
    have finish (conditions : List (Condition Element)) (branches : List Element)
        (subset : branches ⊆ after) (starts : StartsWithToken branches) :
        property _ (do
          let found ← mergeBranches next (mergeParts branches)
          return Form.merge keyword (rest.takeWhile fun element => !element.isKeyword ["USING"])
            ⟨usingWord, after.takeWhile fun element => !element.isKeyword ["ON", "WHEN"],
              conditions⟩ found : Build Form) := by
      have parted := closed_mergeBranches closed reads (mergeParts branches)
      rw [mergeParts_flatten branches starts] at parted
      exact closed.bind _ _ (parted ((spared.of_subset inside.2).of_subset subset))
        fun _ => closed.pure _
    rcases startsWithToken_dropWhile ["ON", "WHEN"] after with nothing | ⟨word, others, left⟩
    · rw [nothing]
      exact finish [] [] (List.nil_subset _) (.inl rfl)
    · have within : after.dropWhile (fun element => !element.isKeyword ["ON", "WHEN"]) ⊆ after :=
        List.dropWhile_subset _
      rw [left] at within ⊢
      simp only
      split
      · exact finish _ _ (fun element member => within (List.mem_cons_of_mem _
          ((List.dropWhile_sublist _).subset member))) (startsWithToken_dropWhile _ _)
      · exact finish [] (.token word :: others) within (.inr ⟨word, others, rfl⟩)
  · exact closed.pure _

theorem closed_withForm (keyword : Token) (rest : List Element)
    (named : ∀ others, property _ (liftM (definitions others) : Build _)) :
    property _ (withForm next keyword rest) := by
  unfold withForm
  simp only
  exact closed.bind _ _ (named _) fun parts =>
    closed.bind _ _ (reads parts.2.2 (.inr named)) fun _ => closed.pure _

theorem closed_formOf (elements : List Element) (spared : Spared property elements) :
    property _ (formOf next elements) := by
  have query : property _ (do return .query (← Build.clauses queryClauses elements) : Build Form) :=
    closed.bind _ _ (closed.clauses _ _) fun _ => closed.pure _
  unfold formOf
  split
  · rename_i first rest
    have sparedRest := spared.of_subset (List.subset_cons_self _ rest)
    split
    · rename_i isWith
      rcases spared with plain | named
      · rw [plain first (by simp)] at isWith
        exact absurd isWith Bool.false_ne_true
      · exact closed_withForm closed reads first rest named
    split
    · exact query
    split
    · exact closed_insertForm closed reads first rest sparedRest
    split
    · exact closed_updateForm closed first rest
    split
    · exact closed_deleteForm closed first rest
    split
    · exact closed_mergeForm closed reads first rest sparedRest
    split
    · exact closed_createForm closed reads first rest sparedRest
    split
    · exact closed.pure _
    · exact closed.pure _
  · split
    · exact query
    · exact closed.pure _
  · exact closed.pure _

theorem closed_statementWith : Reader.Keeps (statementWith next) property := by
  intro elements spared
  unfold statementWith
  simp only
  refine closed.bind _ _ (closed_formOf closed reads _ (spared.of_subset ?_)) fun _ => closed.pure _
  intro element member
  have parts := splitTrailing_append Element.isComment (elements.dropWhile Element.isComment)
  refine (List.dropWhile_sublist Element.isComment).subset ?_
  rw [← parts]
  exact List.mem_append_left _ member

omit reads in
theorem closed_statementOf : Reader.Keeps statementOf property := by
  have fueled (fuel : Nat) : Reader.Keeps (statementFuel fuel) property := by
    induction fuel with
    | zero => exact fun _ _ => closed.pure _
    | succ fuel ih => exact closed_statementWith closed ih
  exact fun elements => fueled (elements.length + 1) elements

end

def Walk.PassesThrough (walk : Walk) : Prop :=
  ∃ misfit, .passedThrough misfit ∈ walk.progress.notices

def Progress.Quiet (progress : Progress) : Prop :=
  ∀ misfit, .passedThrough misfit ∉ progress.notices

namespace Build

variable {α β : Type} {build : Build α} {next : α → Build β} {before middle : Progress}

theorem run_bind_ok {value : α} (step : build.run before = (.ok value, middle)) :
    (build >>= next).run before = (next value).run middle := by
  have unfolded : (build >>= next).run before =
      ExceptT.bindCont next (build.run before).1 (build.run before).2 := rfl
  rw [unfolded, step]
  rfl

theorem run_bind_error {misfit : Misfit} (step : build.run before = (.error misfit, middle)) :
    (build >>= next).run before = (.error misfit, middle) := by
  have unfolded : (build >>= next).run before =
      ExceptT.bindCont next (build.run before).1 (build.run before).2 := rfl
  rw [unfolded, step]
  rfl

def Succeeds (build : Build α) : Prop :=
  ∀ before, ∃ value after, build.run before = (.ok value, after)

/-- Building leaves the open parentheses as they are, and does not say that it gave up. -/
def Calm (build : Build α) : Prop :=
  ∀ before, (build.run before).2.parens = before.parens ∧
    (before.Quiet → (build.run before).2.Quiet)

theorem Succeeds.pure (value : α) : Succeeds (Pure.pure value) :=
  fun before => ⟨value, before, rfl⟩

theorem Succeeds.bind (first : Succeeds build) (second : ∀ value, Succeeds (next value)) :
    Succeeds (build >>= next) := by
  intro before
  obtain ⟨value, middle, step⟩ := first before
  rw [run_bind_ok step]
  exact second value middle

theorem Calm.pure (value : α) : Calm (Pure.pure value) :=
  fun _ => ⟨rfl, id⟩

theorem Calm.bind (first : Calm build) (second : ∀ value, Calm (next value)) :
    Calm (build >>= next) := by
  intro before
  have front := first before
  cases step : build.run before with
  | mk outcome middle =>
    rw [step] at front
    cases outcome with
    | error misfit =>
      rw [run_bind_error step]
      exact front
    | ok value =>
      have onward := second value middle
      rw [run_bind_ok step]
      exact ⟨onward.1.trans front.1, onward.2 ∘ front.2⟩

theorem Calm.note (offsets : List Nat) : Calm (note (offsets.map .caseWithoutEnd)) := by
  refine fun before => ⟨rfl, fun quiet misfit member => ?_⟩
  rcases List.mem_append.1 member with old | noted
  · exact quiet misfit old
  · obtain ⟨offset, -, same⟩ := List.mem_map.1 noted
    cases same

theorem succeeds_closed : Closed fun _ build => build.Succeeds where
  pure := .pure
  bind := fun _ _ first second => first.bind second
  clauses := by
    intro keywords elements before
    unfold clauses
    simp only
    split <;> exact ⟨_, _, rfl⟩

theorem calm_closed : Closed fun _ build => build.Calm where
  pure := .pure
  bind := fun _ _ first second => first.bind second
  clauses := by
    intro keywords elements before
    unfold clauses
    simp only
    split <;> exact ⟨rfl, id⟩

end Build

theorem calm_statementOf (elements : List Element) : (statementOf elements).Calm := by
  refine closed_statementOf Build.calm_closed elements (.inr fun others before => ?_)
  cases definitions others <;> exact ⟨rfl, id⟩

theorem succeeds_statementOf (elements : List Element)
    (plain : ∀ token, .token token ∈ elements → token.isKeyword ["WITH"] = false) :
    (statementOf elements).Succeeds :=
  closed_statementOf Build.succeeds_closed elements (.inl plain)

theorem calm_groupOf (vocabulary : Vocabulary) (depth : Nat) (frame : Frame)
    (content : List Element) (closing : Token) :
    (groupOf vocabulary depth frame content closing).Calm := by
  unfold groupOf
  refine (Build.Calm.note _).bind fun _ => ?_
  simp only
  split
  · exact (calm_statementOf _).bind fun _ => .pure _
  · exact .pure _

theorem token_mem_of_groupCases (depth : Nat) (elements : List Element) (token : Token)
    (member : .token token ∈ groupCases depth elements) : .token token ∈ elements := by
  fun_induction groupCases depth elements with
  | case1 => simp at member
  | case2 first rest opens content closing after found operand branches cut ihInner ihAfter =>
    have inside := ihAfter (by simpa using member)
    have whole := untilEnd_flatten 0 rest content after closing found
    rw [whole]
    simp [inside]
  | case3 first rest opens missing ih => simpa using (by simpa using member : _ ∨ _).imp_right ih
  | case4 first rest other ih => simpa using (by simpa using member : _ ∨ _).imp_right ih
  | case5 element rest other ih => simpa using (by simpa using member : _ ∨ _).imp_right ih

theorem succeeds_groupOf (vocabulary : Vocabulary) (depth : Nat) (frame : Frame)
    (content : List Element) (closing : Token)
    (plain : ∀ token, .token token ∈ content → token.isKeyword ["WITH"] = false) :
    (groupOf vocabulary depth frame content closing).Succeeds := by
  unfold groupOf
  refine Build.Succeeds.bind (fun before => ⟨(), _, rfl⟩) fun _ => ?_
  simp only
  split
  · refine (succeeds_statementOf _ fun token member => ?_).bind fun _ => .pure _
    exact plain token (token_mem_of_groupCases depth content token member)
  · exact .pure _

/-- Where every parenthesis finds its partner and there is no WITH, grouping does not fail. -/
theorem succeeds_groupTokens (vocabulary : Vocabulary) (tokens : List Token)
    (frames : List Frame) (current : List Element)
    (never : ∀ front, front <+: tokens → closes front ≤ frames.length + opens front)
    (all : frames.length + opens tokens = closes tokens)
    (plain : ∀ token ∈ tokens, token.isKeyword ["WITH"] = false)
    (plainCurrent : ∀ token, .token token ∈ current → token.isKeyword ["WITH"] = false)
    (plainFrames : ∀ frame ∈ frames, ∀ token, .token token ∈ frame.before →
      token.isKeyword ["WITH"] = false) :
    (groupTokens vocabulary frames current tokens).Succeeds := by
  induction tokens generalizing frames current with
  | nil =>
    cases frames with
    | nil =>
      rw [groupTokens]
      exact Build.Succeeds.bind (fun before => ⟨(), _, rfl⟩) fun _ => .pure _
    | cons frame frames => simp [opens, closes] at all
  | cons token rest ih =>
    have onward (front : List Token) (isPrefix : front <+: rest) :=
      never (token :: front) (List.cons_prefix_cons.2 ⟨rfl, isPrefix⟩)
    simp only [opens_cons, closes_cons] at onward all
    have plainRest : ∀ other ∈ rest, other.isKeyword ["WITH"] = false :=
      fun other member => plain other (List.mem_cons_of_mem _ member)
    by_cases isOpen : token.kind = .parenOpen
    · have notClose : token.kind ≠ .parenClose := by simp [isOpen]
      simp only [isOpen, if_true, reduceCtorEq, if_false] at onward all
      unfold groupTokens
      rw [if_pos isOpen]
      refine Build.Succeeds.bind (fun before => ⟨(), _, rfl⟩) fun _ =>
        ih (⟨token, current⟩ :: frames) [] (fun front isPrefix => ?_) ?_ plainRest (by simp) ?_
      · have bound := onward front isPrefix
        rw [List.length_cons]
        omega
      · rw [List.length_cons]
        omega
      · rintro frame (_ | ⟨_, member⟩)
        · exact plainCurrent
        · exact plainFrames frame member
    by_cases isClose : token.kind = .parenClose
    · simp only [isClose, if_true, reduceCtorEq, if_false] at onward all
      cases frames with
      | nil =>
        have bound := onward [] List.nil_prefix
        simp [opens, closes] at bound
      | cons frame frames =>
        rw [groupTokens, if_neg isOpen, if_pos isClose]
        refine Build.Succeeds.bind (fun before => ⟨(), _, rfl⟩) fun _ => ?_
        refine (succeeds_groupOf vocabulary frames.length frame current token plainCurrent).bind
          fun group => ih frames (frame.before ++ [.group group]) (fun front isPrefix => ?_) ?_
            plainRest (fun other member => ?_) fun other member => ?_
        · have bound := onward front isPrefix
          rw [List.length_cons] at bound
          omega
        · rw [List.length_cons] at all
          omega
        · exact plainFrames frame (by simp) other (by simpa using member)
        · exact plainFrames other (List.mem_cons_of_mem _ member)
    · simp only [isOpen, isClose, if_false] at onward all
      unfold groupTokens
      rw [if_neg isOpen, if_neg isClose]
      refine ih frames _ onward all plainRest (fun other member => ?_) plainFrames
      rcases List.mem_append.1 member with before | last
      · exact plainCurrent other before
      · rw [List.mem_singleton, Element.token.injEq] at last
        rw [last]
        exact plain token (by simp)

theorem calm_groupTokens (vocabulary : Vocabulary) (tokens : List Token) (frames : List Frame)
    (current : List Element) (before : Progress)
    (remembers : before.parens = frames.map fun _ => .grouping) (quiet : before.Quiet) :
    ((groupTokens vocabulary frames current tokens).run before).2.Quiet ∧
      ∀ elements, ((groupTokens vocabulary frames current tokens).run before).1 = .ok elements →
        ((groupTokens vocabulary frames current tokens).run before).2.parens = [] := by
  induction tokens generalizing frames current before with
  | nil =>
    cases frames with
    | nil =>
      have calm : (groupTokens vocabulary [] current []).Calm := by
        rw [groupTokens]
        exact (Build.Calm.note _).bind fun _ => .pure _
      obtain ⟨same, still⟩ := calm before
      exact ⟨still quiet, fun _ _ => same.trans remembers⟩
    | cons frame frames =>
      rw [groupTokens]
      refine ⟨quiet, fun elements stopped => ?_⟩
      cases stopped
  | cons token rest ih =>
    by_cases isOpen : token.kind = .parenOpen
    · unfold groupTokens
      rw [if_pos isOpen]
      exact ih (⟨token, current⟩ :: frames) [] { before with parens := _ } rfl quiet
    by_cases isClose : token.kind = .parenClose
    · cases frames with
      | nil =>
        rw [groupTokens, if_neg isOpen, if_pos isClose]
        refine ⟨quiet, fun elements stopped => ?_⟩
        cases stopped
      | cons frame frames =>
        rw [groupTokens, if_neg isOpen, if_pos isClose]
        let popped : Progress := { before with parens := frames.map fun _ => .grouping }
        have calm := calm_groupOf vocabulary frames.length frame current token popped
        have first (next : Unit → Build (List Element)) :
            (Build.setOpen frames >>= next).run before = (next ()).run popped := rfl
        rw [first]
        cases step : (groupOf vocabulary frames.length frame current token).run popped with
        | mk outcome middle =>
          rw [step] at calm
          cases outcome with
          | error misfit =>
            rw [Build.run_bind_error step]
            refine ⟨calm.2 quiet, fun elements stopped => ?_⟩
            cases stopped
          | ok group =>
            rw [Build.run_bind_ok step]
            exact ih frames _ middle calm.1 (calm.2 quiet)
    · unfold groupTokens
      rw [if_neg isOpen, if_neg isClose]
      exact ih frames _ before remembers quiet

end SqlLayout.Tree
