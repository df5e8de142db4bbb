import SqlLayout.Proofs.Progressing

/-! The groups of a tree are the pairs of parentheses of its statement. Every group is made
where its parentheses close, from what has been read since they opened; from there it may go
into a CASE expression, into a statement or into a list of its items, and is a group of the
whole still. What has been read is nested: the groups that occur in it are the pairs among its
tokens. -/
namespace SqlLayout.Tree

open SqlLayout.Keyword
open SqlLayout.Token (splitStatements tokens? Stream)

inductive Element.Has (inner : Group) : Element → Prop
  | self : Element.Has inner (.group inner)
  | element {group : Group} {element : Element} (inside : element ∈ group.elements)
      (has : Element.Has inner element) : Element.Has inner (.group group)
  | item {group : Group} {item : List Element} {element : Element} (stands : item ∈ group.items)
      (inside : element ∈ item) (has : Element.Has inner element) :
      Element.Has inner (.group group)
  | body {group : Group} {body : Statement} {element : Element} (holds : group.body = some body)
      (inside : element ∈ body.pieces) (has : Element.Has inner element) :
      Element.Has inner (.group group)
  | operand {case : Case Element} {element : Element} (inside : element ∈ case.operand)
      (has : Element.Has inner element) : Element.Has inner (.case case)
  | branch {case : Case Element} {branch : Branch Element} {element : Element}
      (stands : branch ∈ case.branches) (inside : element ∈ branch.elements)
      (has : Element.Has inner element) : Element.Has inner (.case case)

def Statement.Has (inner : Group) (statement : Statement) : Prop :=
  Occurs (Element.Has inner) statement.pieces

def Group.span (group : Group) : Span :=
  ⟨group.opening, group.closing, group.depth, {token | token ∈ group.collect}⟩

def Element.Shows (span : Span) (element : Element) : Prop :=
  ∃ inner, element.Has inner ∧ inner.span = span

section

variable {span : Span}

theorem occurs_shows_iff (elements : List Element) :
    Occurs (Element.Shows span) elements ↔
      ∃ inner, Occurs (Element.Has inner) elements ∧ inner.span = span := by
  constructor
  · rintro ⟨element, member, inner, has, same⟩
    exact ⟨inner, ⟨element, member, has⟩, same⟩
  · rintro ⟨inner, ⟨element, member, has⟩, same⟩
    exact ⟨element, member, inner, has, same⟩

theorem not_shows_token (token : Token) : ¬(Element.token token).Shows span := by
  rintro ⟨inner, has, -⟩
  cases has

theorem shows_group (group : Group) :
    (Element.group group).Shows span ↔
      span = group.span ∨ Occurs (Element.Shows span) group.elements ∨
        Occurs (Element.Shows span) group.items.flatten ∨
        ∃ body, group.body = some body ∧ Occurs (Element.Shows span) body.pieces := by
  constructor
  · rintro ⟨inner, has, same⟩
    cases has with
    | self => exact .inl same.symm
    | element inside has => exact .inr (.inl ⟨_, inside, inner, has, same⟩)
    | item stands inside has =>
      exact .inr (.inr (.inl ⟨_, List.mem_flatten.2 ⟨_, stands, inside⟩, inner, has, same⟩))
    | body holds inside has =>
      exact .inr (.inr (.inr ⟨_, holds, _, inside, inner, has, same⟩))
  · rintro (rfl | ⟨element, inside, inner, has, same⟩ | ⟨element, inside, inner, has, same⟩ |
      ⟨body, holds, element, inside, inner, has, same⟩)
    · exact ⟨group, .self, rfl⟩
    · exact ⟨inner, .element inside has, same⟩
    · obtain ⟨item, stands, within⟩ := List.mem_flatten.1 inside
      exact ⟨inner, .item stands within has, same⟩
    · exact ⟨inner, .body holds inside has, same⟩

theorem shows_case (case : Case Element) :
    (Element.case case).Shows span ↔
      Occurs (Element.Shows span) (case.operand ++ case.branches.flatMap Branch.pieces) := by
  rw [occurs_append]
  constructor
  · rintro ⟨inner, has, same⟩
    cases has with
    | operand inside has => exact .inl ⟨_, inside, inner, has, same⟩
    | branch stands inside has =>
      exact .inr ⟨_, List.mem_flatMap.2 ⟨_, stands, List.mem_cons_of_mem _ inside⟩, inner, has,
        same⟩
  · rintro (⟨element, inside, inner, has, same⟩ | ⟨element, inside, inner, has, same⟩)
    · exact ⟨inner, .operand inside has, same⟩
    · obtain ⟨branch, stands, within⟩ := List.mem_flatMap.1 inside
      rcases List.mem_cons.1 within with rfl | behind
      · cases has
      · exact ⟨inner, .branch stands behind has, same⟩

/-- The items of a tuple are cut from its run, so that it has the groups of the run. -/
theorem stable_shows (elements : List Element) (uncut : Uncut elements) :
    Stable (Element.Shows span) elements := by
  intro inner member
  have whole := uncut inner member
  have same : inner.asTuple.span = inner.span := by
    simp only [Group.span, Group.asTuple, Span.mk.injEq, true_and]
    ext token
    exact mem_asTuple inner whole token
  have items : Occurs (Element.Shows span) (splitItems inner.elements).items.flatten →
      Occurs (Element.Shows span) inner.elements := by
    rintro ⟨element, inside, shows⟩
    obtain ⟨item, stands, within⟩ := List.mem_flatten.1 inside
    exact ⟨element, items_subset _ _ stands within, shows⟩
  rw [shows_group, shows_group, same, whole, List.flatten_nil]
  simp only [Group.asTuple, not_occurs_nil, false_or]
  grind

theorem occurs_groupCases (depth : Nat) (elements : List Element) :
    Occurs (Element.Shows span) (groupCases depth elements) ↔
      Occurs (Element.Shows span) elements := by
  fun_induction groupCases depth elements with
  | case1 => rfl
  | case2 token rest opens inner closing after found operand branches cut ihInner ihAfter =>
    have parts := pieces_cutAt (fun token _ => token.isKeyword ["WHEN", "ELSE"])
      (groupCases depth inner)
    have whole := untilEnd_flatten 0 rest inner after closing found
    have made : cutAt (fun token _ => token.isKeyword ["WHEN", "ELSE"]) (groupCases depth inner) =
      (operand, branches) := cut
    rw [made] at parts
    rw [occurs_cons, shows_case, parts, ihInner, ihAfter, occurs_cons, whole, occurs_append,
      occurs_cons]
    simp only [not_shows_token, false_or]
  | case3 token rest opens missing ih => rw [occurs_cons, ih, occurs_cons]
  | case4 token rest other ih => rw [occurs_cons, ih, occurs_cons]
  | case5 element rest other ih => rw [occurs_cons, ih, occurs_cons]

end

/-- A run that was read from some tokens: its groups are the pairs among them. -/
structure Nested (depth : Nat) (tokens : List Token) (elements : List Element) : Prop where
  uncut : Uncut elements
  gathers : Gathers tokens elements
  groups : ∃ spans, Nest depth tokens spans ∧
    ∀ span, Occurs (Element.Shows span) elements ↔ span ∈ spans

namespace Nested

variable {depth : Nat} {tokens others : List Token} {elements more : List Element}

theorem nil (depth : Nat) : Nested depth [] [] where
  uncut := by simp [Uncut]
  gathers := fun _ => Iff.rfl
  groups := ⟨[], .nil depth, by simp⟩

theorem append (front : Nested depth tokens elements) (rest : Nested depth others more) :
    Nested depth (tokens ++ others) (elements ++ more) where
  uncut := by
    intro inner member
    exact (List.mem_append.1 member).elim (front.uncut inner) (rest.uncut inner)
  gathers := by
    intro token
    rw [List.mem_append, front.gathers token, rest.gathers token, collectRun_append,
      List.mem_append]
  groups := by
    obtain ⟨spans, nest, same⟩ := front.groups
    obtain ⟨behind, nestBehind, sameBehind⟩ := rest.groups
    refine ⟨spans ++ behind, nest.append nestBehind, fun span => ?_⟩
    rw [occurs_append, List.mem_append, same, sameBehind]

theorem token (depth : Nat) (token : Token) (notOpen : token.kind ≠ .parenOpen)
    (notClose : token.kind ≠ .parenClose) : Nested depth [token] [.token token] where
  uncut := by simp [Uncut]
  gathers := fun _ => Iff.rfl
  groups := ⟨[], .token token notOpen notClose (.nil depth), by simp [not_shows_token]⟩

theorem groupCases (nested : Nested depth tokens elements) (level : Nat) :
    Nested depth tokens (Tree.groupCases level elements) where
  uncut := nested.uncut.groupCases level
  gathers := by
    intro token
    rw [collectRun_groupCases]
    exact nested.gathers token
  groups := by
    obtain ⟨spans, nest, same⟩ := nested.groups
    exact ⟨spans, nest, fun span => by rw [occurs_groupCases, same]⟩

theorem group (nested : Nested (depth + 1) tokens elements) (opening closing : Token)
    (isOpen : opening.kind = .parenOpen) (isClose : closing.kind = .parenClose) (group : Group)
    (opens : group.opening = opening) (closes : group.closing = closing)
    (level : group.depth = depth) (uncut : group.items = [])
    (gathers : ∀ token, token ∈ group.collect ↔ token ∈ opening :: (tokens ++ [closing]))
    (inside : ∀ span, Occurs (Element.Shows span) group.elements ∨
      (∃ body, group.body = some body ∧ Occurs (Element.Shows span) body.pieces) ↔
      Occurs (Element.Shows span) elements) :
    Nested depth (opening :: (tokens ++ [closing])) [.group group] where
  uncut := by
    intro inner member
    rw [List.mem_singleton, Element.group.injEq] at member
    rw [member, uncut]
  gathers := by
    intro token
    rw [collectRun_group, collectRun_nil, List.append_nil]
    exact (gathers token).symm
  groups := by
    obtain ⟨spans, nest, same⟩ := nested.groups
    have pair := Nest.pair opening closing isOpen isClose nest (.nil depth)
    rw [List.append_nil] at pair
    refine ⟨_, pair, fun span => ?_⟩
    have shown : group.span =
        ⟨opening, closing, depth, {token | token ∈ opening :: (tokens ++ [closing])}⟩ := by
      simp only [Group.span, opens, closes, level, Span.mk.injEq, true_and]
      ext token
      exact gathers token
    rw [occurs_cons, shows_group, shown, uncut, List.mem_cons, ← same span, ← inside span]
    simp only [List.flatten_nil, not_occurs_nil, false_or, or_false]

end Nested

theorem nested_groupOf (vocabulary : Vocabulary) (depth : Nat) (frame : Frame)
    (tokens : List Token) (content : List Element) (closing : Token)
    (nested : Nested (depth + 1) tokens content) (isOpen : frame.opening.kind = .parenOpen)
    (isClose : closing.kind = .parenClose) :
    (groupOf vocabulary depth frame content closing).Yields fun group =>
      Nested depth (frame.opening :: (tokens ++ [closing])) [.group group] := by
  unfold groupOf
  refine (Build.Yields.any _).bind fun _ _ => ?_
  simp only
  have cased := nested.groupCases depth
  generalize groupCases depth content = content' at cased ⊢
  split
  · refine ((gathers_statementOf content' cased.uncut).both fun before body after given span =>
      holds_statementOf (Element.Shows span) content' (stable_shows content' cased.uncut) before
        body after given).bind ?_
    rintro body ⟨gathers, shows⟩
    refine .pure _ (cased.group _ _ isOpen isClose _ rfl rfl rfl rfl (fun token => ?_) fun span => ?_)
    · rw [collect_group]
      simp only [collectRuns, collectBody, collectRun_nil, List.append_nil, List.cons_append,
        List.nil_append, List.mem_cons, List.mem_append, gathers token, cased.gathers token]
    · simp [shows span]
  · refine .pure _ (cased.group _ _ isOpen isClose _ rfl rfl rfl rfl (fun token => ?_) fun span => ?_)
    · rw [collect_group]
      simp only [collectRuns, collectBody, List.append_nil, List.cons_append, List.mem_cons,
        List.mem_append, cased.gathers token]
    · simp

/-- What the open parentheses and the run inside them were read from. -/
def Opened : List Frame → List Element → List Token → Prop
  | [], current, read => Nested 0 read current
  | frame :: frames, current, read =>
    ∃ front inside, read = front ++ frame.opening :: inside ∧
      frame.opening.kind = .parenOpen ∧ Opened frames frame.before front ∧
      Nested (frames.length + 1) inside current

theorem Opened.append {frames : List Frame} {current more : List Element} {read tokens : List Token}
    (opened : Opened frames current read) (nested : Nested frames.length tokens more) :
    Opened frames (current ++ more) (read ++ tokens) := by
  cases frames with
  | nil => exact Nested.append opened nested
  | cons frame frames =>
    obtain ⟨front, inside, rfl, isOpen, before, within⟩ := opened
    refine ⟨front, inside ++ tokens, ?_, isOpen, before, within.append nested⟩
    rw [List.append_assoc, List.cons_append]

theorem nested_groupTokens (vocabulary : Vocabulary) (tokens read : List Token)
    (frames : List Frame) (current : List Element) (opened : Opened frames current read) :
    (groupTokens vocabulary frames current tokens).Yields fun elements =>
      Nested 0 (read ++ tokens) elements := by
  induction tokens generalizing read frames current with
  | nil =>
    cases frames with
    | nil =>
      rw [groupTokens, List.append_nil]
      exact (Build.Yields.any _).bind fun _ _ => .pure _ (Nested.groupCases opened 0)
    | cons frame frames =>
      rw [groupTokens]
      exact .throw _
  | cons token rest ih =>
    have whole (more : List Token) : read ++ token :: more = read ++ [token] ++ more := by simp
    by_cases opens : token.kind = .parenOpen
    · unfold groupTokens
      rw [if_pos opens, whole]
      exact (Build.Yields.any _).bind fun _ _ => ih _ (⟨token, current⟩ :: frames) []
        ⟨read, [], rfl, opens, opened, .nil _⟩
    by_cases closes : token.kind = .parenClose
    · cases frames with
      | nil =>
        rw [groupTokens, if_neg opens, if_pos closes]
        exact .throw _
      | cons frame frames =>
        obtain ⟨front, inside, rfl, isOpen, before, within⟩ := opened
        rw [groupTokens, if_neg opens, if_pos closes]
        refine (Build.Yields.any _).bind fun _ _ => ?_
        refine (nested_groupOf vocabulary frames.length frame inside current token within isOpen
          closes).bind fun group made => ?_
        have onward := ih _ frames (frame.before ++ [.group group]) (before.append made)
        simpa only [List.append_assoc, List.cons_append, List.nil_append] using onward
    · unfold groupTokens
      rw [if_neg opens, if_neg closes, whole]
      exact ih _ frames _ (opened.append (.token _ token opens closes))

def Group.tokens (group : Group) : List Token :=
  inTextOrder group.collect

theorem calm_build (vocabulary : Vocabulary) (tokens : List Token) :
    ((build vocabulary tokens).run {}).2.Quiet ∧
      ∀ statement, ((build vocabulary tokens).run {}).1 = .ok statement →
        ((build vocabulary tokens).run {}).2.parens = [] := by
  obtain ⟨quiet, closed⟩ := calm_groupTokens vocabulary tokens [] [] {} rfl
    (by simp [Progress.Quiet])
  unfold build
  cases step : (groupTokens vocabulary [] [] tokens).run {} with
  | mk outcome middle =>
    rw [step] at quiet closed
    cases outcome with
    | error misfit =>
      rw [Build.run_bind_error step]
      exact ⟨quiet, by simp⟩
    | ok elements =>
      have calm := calm_statementOf elements middle
      rw [Build.run_bind_ok step]
      exact ⟨calm.2 quiet, fun _ _ => calm.1.trans (closed elements rfl)⟩

/-- A walk either builds a statement, or gives the plain run and says so. -/
theorem walk_cases (vocabulary : Vocabulary) (tokens : List Token) :
    (¬(walk vocabulary tokens).PassesThrough ∧ ∃ statement progress,
      (build vocabulary (countedTokens tokens)).run {} = (.ok statement, progress) ∧
        walk vocabulary tokens = ⟨statement, progress⟩) ∨
    ((walk vocabulary tokens).PassesThrough ∧ ∃ misfit progress,
      (build vocabulary (countedTokens tokens)).run {} = (.error misfit, progress) ∧
        (walk vocabulary tokens).statement =
          .ofForm (.raw ((countedTokens tokens).map .token))) := by
  have quiet := (calm_build vocabulary (countedTokens tokens)).1
  cases run : (build vocabulary (countedTokens tokens)).run {} with
  | mk outcome progress =>
    rw [run] at quiet
    cases outcome with
    | ok statement =>
      have walked : walk vocabulary tokens = ⟨statement, progress⟩ := by simp [walk, run]
      refine .inl ⟨?_, statement, progress, rfl, walked⟩
      rw [walked]
      rintro ⟨misfit, member⟩
      exact quiet misfit member
    | error misfit =>
      exact .inr ⟨⟨misfit, by simp [walk, run]⟩, misfit, progress, rfl, by simp [walk, run]⟩

theorem nested_build (vocabulary : Vocabulary) (tokens : List Token) :
    (build vocabulary tokens).Yields fun statement => ∃ spans, Nest 0 tokens spans ∧
      ∀ span, Occurs (Element.Shows span) statement.pieces ↔ span ∈ spans := by
  refine (nested_groupTokens vocabulary tokens [] [] [] (Nested.nil 0)).bind
    fun elements nested before statement after given => ?_
  obtain ⟨spans, nest, same⟩ := nested.groups
  exact ⟨spans, nest, fun span => (holds_statementOf (Element.Shows span) elements
    (stable_shows elements nested.uncut) before statement after given).trans (same span)⟩

theorem succeeds_build (vocabulary : Vocabulary) (tokens : List Token)
    (balanced : Balanced tokens) (plain : ∀ token ∈ tokens, token.isKeyword ["WITH"] = false) :
    ∃ statement progress, (build vocabulary tokens).run {} = (.ok statement, progress) := by
  obtain ⟨elements, middle, step⟩ := succeeds_groupTokens vocabulary tokens [] []
    (by simpa using balanced.1) (by simpa using balanced.2) plain (by simp) (by simp) {}
  have nested := nested_groupTokens vocabulary tokens [] [] [] (Nested.nil 0) _ _ _ step
  unfold build
  rw [Build.run_bind_ok step]
  refine succeeds_statementOf elements (fun token member => plain token ?_) middle
  rw [← List.nil_append tokens, nested.gathers token, mem_collectRun]
  exact ⟨_, member, by simp [Element.collect]⟩

theorem Group.between_of_span {part : List Token} {spans : List Span} (group : Group)
    (nest : Nest 0 (countedTokens part) spans) (ascending : Ascending (countedTokens part))
    (member : group.span ∈ spans) :
    ∃ before inside after,
      part = before ++ group.opening :: (inside ++ group.closing :: after) ∧ Balanced inside ∧
      group.tokens = (group.opening :: (inside ++ [group.closing])).filter (!·.isBlank) := by
  obtain ⟨isOpen, isClose, before, inside, after, whole, balanced, found⟩ :=
    nest.exists_between group.span member
  have opens : group.opening.kind = .parenOpen := isOpen
  have closes : group.closing.kind = .parenClose := isClose
  obtain ⟨front, between, rest, stands, enclosed, rfl⟩ :=
    exists_between_blanks part before inside after _ _ whole balanced
  refine ⟨front, between, rest, stands, enclosed, ?_⟩
  rw [List.filter_cons_of_pos (by simp [Token.isBlank, opens]), List.filter_append,
    List.filter_cons_of_pos (by simp [Token.isBlank, closes]), List.filter_nil]
  refine inTextOrder_eq _ _ (ascending.sublist ?_) fun token => Set.ext_iff.1 found token
  rw [whole]
  refine List.Sublist.trans ?_ (List.sublist_append_right before _)
  refine List.Sublist.cons_cons _ (List.Sublist.append_left ?_ _)
  exact List.Sublist.cons_cons _ (List.nil_sublist after)

/-- Grouping is exact, whatever words and names of functions there are. A text or one of its
statements whose parentheses do not match is left as the plain run of its tokens; where they
match and no WITH occurs, it is not left so. Of a statement that is not left so, the groups
are the pairs of parentheses that match, each with the number of pairs around it and with the
tokens from the one to the other, and no parenthesis stays open. -/
theorem walk_groups (registry : Registry) (vocabulary : Vocabulary) (source : String)
    (tokens part : List Token) (lexed : tokens? registry source = .ok tokens)
    (stands : part = tokens ∨ part ∈ splitStatements tokens) :
    (¬Balanced part →
      (walk vocabulary part).statement =
        .ofForm (.raw ((((Stream.mk part).significant false).rdropWhile
          fun token => token.kind = .semicolon).map .token))) ∧
    (Balanced part → (∀ token ∈ part, token.isKeyword ["WITH"] = false) →
      ¬(walk vocabulary part).PassesThrough) ∧
    (¬(walk vocabulary part).PassesThrough →
      (∀ opening closing,
        (∃ group, (walk vocabulary part).statement.Has group ∧
          group.opening = opening ∧ group.closing = closing) ↔ IsPair part opening closing) ∧
      (∀ group, (walk vocabulary part).statement.Has group →
        group.depth = (pairsAround part group.opening group.closing).ncard ∧
        ∃ before inside after,
          part = before ++ group.opening :: (inside ++ group.closing :: after) ∧
          Balanced inside ∧
          group.tokens =
            (group.opening :: (inside ++ [group.closing])).filter (!·.isBlank)) ∧
      (walk vocabulary part).progress.parens = []) := by
  have ascending := ascending_counted _ source tokens part lexed stands
  rw [significant_eq_counted]
  rcases walk_cases vocabulary part with
    ⟨shaped, statement, progress, run, walked⟩ | ⟨passes, misfit, progress, run, walked⟩
  · obtain ⟨spans, nest, same⟩ := nested_build vocabulary (countedTokens part) _ _ _ run
    refine ⟨fun unbalanced => absurd ((balanced_counted part).1 nest.balanced) unbalanced,
      fun _ _ => shaped, fun _ => ⟨fun opening closing => ?_, fun group has => ?_, ?_⟩⟩
    · rw [← isPair_counted, walked]
      constructor
      · rintro ⟨group, has, rfl, rfl⟩
        exact nest.isPair group.span ((same _).1 ((occurs_shows_iff _).2 ⟨group, has, rfl⟩))
      · intro pair
        obtain ⟨span, member, rfl, rfl⟩ := nest.exists_span opening closing pair
        obtain ⟨group, has, rfl⟩ := (occurs_shows_iff _).1 ((same span).2 member)
        exact ⟨group, has, rfl, rfl⟩
    · rw [walked] at has
      have member := (same group.span).1 ((occurs_shows_iff _).2 ⟨group, has, rfl⟩)
      have depth := nest.depth_eq_ncard ascending group.span member
      rw [pairsAround_counted] at depth
      exact ⟨depth, group.between_of_span nest ascending member⟩
    · rw [walked]
      have closed := (calm_build vocabulary (countedTokens part)).2 statement
      rw [run] at closed
      exact closed rfl
  · refine ⟨fun _ => walked, fun balanced plain => ?_, fun shaped => absurd passes shaped⟩
    obtain ⟨statement, after, done⟩ := succeeds_build vocabulary (countedTokens part)
      ((balanced_counted part).2 balanced) fun token member => plain token (mem_of_counted token member)
    rw [run] at done
    cases done

def enclosedCall : List Token :=
  [⟨.reservedWord, "select", 0, "SELECT"⟩, .plain .blank " " 6, .plain .parenOpen "(" 7,
    .plain .identifier "f" 8, .plain .parenOpen "(" 9, .plain .identifier "a" 10,
    .plain .blank " " 11, .plain .parenClose ")" 12, .plain .parenClose ")" 13]

theorem walk_groups_call :
    tokens? (Registry.common {}) "select (f(a ))" = .ok enclosedCall ∧
    ∃ group, (walk ⟨.common {}, []⟩ enclosedCall).statement.Has group ∧
      group.opening = .plain .parenOpen "(" 9 ∧ group.closing = .plain .parenClose ")" 12 := by
  have lexed := (Token.tokens?_eq_ok_iff (Registry.common {}) "select (f(a ))"
    enclosedCall).2 (by decide +kernel)
  obtain ⟨-, shaped, exact⟩ := walk_groups (.common {}) ⟨.common {}, []⟩ "select (f(a ))" enclosedCall
    enclosedCall lexed (.inl rfl)
  refine ⟨lexed, ((exact (shaped (by decide +kernel) (by decide +kernel))).1 _ _).2 ?_⟩
  exact ⟨rfl, rfl, enclosedCall.take 4, [.plain .identifier "a" 10, .plain .blank " " 11],
    [.plain .parenClose ")" 13], rfl, by decide⟩

end SqlLayout.Tree
