import SqlLayout.Proofs.Branching

/-! The depth that is kept with a CASE expression. An expression is made where the run around it is
complete, and inside parentheses that is when the closing one has been read: by then the pair no
longer counts as open. So the depth is that of the parentheses around the expression, one less than
the number of pairs around its CASE, however deep in other expressions it stands; only outside of
all parentheses nothing is missing. -/
namespace SqlLayout.Tree

open SqlLayout.Keyword
open SqlLayout.Token (splitStatements tokens?)

def StandsAt (tokens : List Token) (level : Nat) (token : Token) : Prop :=
  ∃ front back, tokens = front ++ token :: back ∧ opens front = level + closes front

/-- The depth of the expression is that of the pair around it, if there is one. -/
def Case.IsLeveled (tokens : List Token) (case : Case Element) : Prop :=
  ∃ level, StandsAt tokens level case.keyword ∧ case.depth = level - 1

namespace Nest

variable {depth : Nat} {tokens : List Token} {spans : List Span}

theorem level_eq (nest : Nest depth tokens spans) (ascending : Ascending tokens) (token : Token)
    (notOpen : token.kind ≠ .parenOpen) (notClose : token.kind ≠ .parenClose)
    (front back : List Token) (whole : tokens = front ++ token :: back) (level : Nat)
    (inside : Set Token) :
    spans.countP (·.surrounds ⟨token, token, level, inside⟩) + closes front = opens front := by
  induction nest generalizing front back with
  | nil => simp at whole
  | token _ firstOpens firstCloses behind ih =>
    obtain ⟨later, ascendingRest⟩ := List.pairwise_cons.1 ascending
    cases front with
    | nil =>
      obtain ⟨rfl, -⟩ := List.cons.inj whole
      rw [countP_surrounds_eq_zero]
      · rfl
      · intro span member
        exact .inl (Nat.le_of_lt (later _ (behind.mem_tokens span member).1))
    | cons _ front =>
      obtain ⟨rfl, others⟩ := List.cons.inj whole
      rw [opens_cons, closes_cons, if_neg firstOpens, if_neg firstCloses]
      exact ih ascendingRest front back others
  | @pair _ _ _ inner outer opening closing isOpen isClose within behind ihInner ihOuter =>
    obtain ⟨ascendingInner, ascendingOuter⟩ := ascending_parts ascending
    obtain ⟨opened, others⟩ := List.pairwise_cons.1 ascending
    obtain ⟨-, closed, before⟩ := List.pairwise_append.1 others
    cases front with
    | nil =>
      obtain ⟨rfl, -⟩ := List.cons.inj whole
      exact absurd isOpen notOpen
    | cons _ front =>
      obtain ⟨rfl, found⟩ := List.cons.inj whole
      have notFirst : opening.kind ≠ .parenClose := by simp [isOpen]
      have notLast : closing.kind ≠ .parenOpen := by simp [isClose]
      rw [opens_cons, closes_cons, if_pos isOpen, if_neg notFirst]
      -- The token stands behind the first pair or in it.
      rcases List.append_eq_append_iff.1 found with ⟨left, rfl, last⟩ | ⟨left, rfl, last⟩
      · cases left with
        | nil =>
          obtain ⟨rfl, -⟩ := List.cons.inj last
          exact absurd isClose notClose
        | cons _ left =>
          obtain ⟨rfl, rfl⟩ := List.cons.inj last
          have beyond : closing.start < token.start :=
            (List.pairwise_cons.1 closed).1 token (by simp)
          have balanced := within.balanced.2
          have known := ihOuter ascendingOuter left back rfl
          rw [countP_surrounds_behind within behind ascending _ _ _ ⟨beyond, beyond⟩,
            opens_append, closes_append, opens_cons, closes_cons, if_neg notLast, if_pos isClose]
          omega
      · cases left with
        | nil =>
          obtain ⟨rfl, -⟩ := List.cons.inj last
          exact absurd isClose notClose
        | cons _ left =>
          obtain ⟨rfl, -⟩ := List.cons.inj last
          have early : opening.start < token.start := opened token (by simp)
          have late : token.start < closing.start :=
            before token (by simp) closing List.mem_cons_self
          have known := ihInner ascendingInner front left rfl
          rw [countP_surrounds_inside within behind ascending _ _ _ ⟨early, late, late⟩]
          omega

theorem ncard_eq_level (nest : Nest depth tokens spans) (ascending : Ascending tokens)
    (token : Token) (notOpen : token.kind ≠ .parenOpen) (notClose : token.kind ≠ .parenClose)
    (level : Nat) (stands : StandsAt tokens level token) :
    (pairsAround tokens token token).ncard = level := by
  obtain ⟨front, back, whole, counted⟩ := stands
  have still := nest.level_eq ascending token notOpen notClose front back whole depth ∅
  calc (pairsAround tokens token token).ncard
    _ = spans.countP (·.surrounds ⟨token, token, depth, ∅⟩) :=
      nest.ncard_pairsAround ascending ⟨token, token, depth, ∅⟩
    _ = level := by omega

end Nest

def Element.MayShow (property : Case Element → Prop) (depth : Nat) (element : Element) : Prop :=
  element.ShowsCase property ∨
    ∃ case, property case ∧ case.depth = depth ∧ element = .token case.keyword

/-- New expressions are begun by words of the run, at the depth that is given. -/
theorem mayShow_of_groupCases {property : Case Element → Prop} (depth : Nat)
    (elements : List Element)
    (occurs : Occurs (Element.ShowsCase property) (groupCases depth elements)) :
    Occurs (Element.MayShow property depth) elements := by
  fun_induction groupCases depth elements with
  | case1 => simp at occurs
  | case2 token rest opens inner closing after found operand branches cut ihInner ihAfter =>
    have whole := untilEnd_flatten 0 rest inner after closing found
    rw [occurs_cons, showsCase_case, content_of_cut depth token closing cut] at occurs
    rw [whole, occurs_cons, occurs_append, occurs_cons]
    rcases occurs with (new | within) | behind
    · exact .inl (.inr ⟨_, new, rfl, rfl⟩)
    · exact .inr (.inl (ihInner within))
    · exact .inr (.inr (.inr (ihAfter behind)))
  | case3 token rest opens missing ih =>
    rw [occurs_cons] at occurs ⊢
    exact occurs.imp .inl ih
  | case4 token rest other ih =>
    rw [occurs_cons] at occurs ⊢
    exact occurs.imp .inl ih
  | case5 element rest other ih =>
    rw [occurs_cons] at occurs ⊢
    exact occurs.imp .inl ih

/-- A run between so many open parentheses, with the expressions made in it so far. -/
structure Leveled (tokens : List Token) (level : Nat) (elements : List Element) : Prop where
  uncut : Uncut elements
  direct : ∀ token, .token token ∈ elements → StandsAt tokens level token
  cases : ¬Occurs (Element.ShowsCase fun inner => ¬inner.IsLeveled tokens) elements

namespace Leveled

variable {tokens : List Token} {level : Nat} {elements others : List Element}

theorem nil : Leveled tokens level [] :=
  ⟨by simp [Uncut], by simp, by simp⟩

theorem append (front : Leveled tokens level elements) (behind : Leveled tokens level others) :
    Leveled tokens level (elements ++ others) where
  uncut := fun inner member =>
    (List.mem_append.1 member).elim (front.uncut inner) (behind.uncut inner)
  direct := fun token member =>
    (List.mem_append.1 member).elim (front.direct token) (behind.direct token)
  cases := by
    rw [occurs_append, not_or]
    exact ⟨front.cases, behind.cases⟩

theorem token (token : Token) (stands : StandsAt tokens level token) :
    Leveled tokens level [.token token] where
  uncut := by simp [Uncut]
  direct := by simp [stands]
  cases := by simp [not_showsCase_token]

theorem group (group : Group) (uncut : group.items = [])
    (cases : ¬Occurs (Element.ShowsCase fun inner => ¬inner.IsLeveled tokens) group.elements)
    (body : ∀ body, group.body = some body →
      ¬Occurs (Element.ShowsCase fun inner => ¬inner.IsLeveled tokens) body.pieces) :
    Leveled tokens level [.group group] where
  uncut := by simp [Uncut, uncut]
  direct := by simp
  cases := by
    rw [occurs_cons, showsCase_group, uncut, List.flatten_nil]
    simp only [not_occurs_nil, false_or, or_false, not_or, not_exists, not_and]
    exact ⟨cases, body⟩

theorem groupCases (leveled : Leveled tokens level elements) :
    Leveled tokens level (Tree.groupCases (level - 1) elements) where
  uncut := leveled.uncut.groupCases (level - 1)
  direct := fun token member =>
    leveled.direct token (token_mem_of_groupCases (level - 1) elements token member)
  cases := by
    intro occurs
    obtain ⟨element, member, shows | ⟨case, flawed, depth, rfl⟩⟩ :=
      mayShow_of_groupCases (level - 1) elements occurs
    · exact leveled.cases ⟨element, member, shows⟩
    · exact flawed ⟨level, leveled.direct _ member, depth⟩

theorem statementOf (leveled : Leveled tokens level elements) :
    (Tree.statementOf elements).Yields fun statement =>
      ¬Occurs (Element.ShowsCase fun inner => ¬inner.IsLeveled tokens) statement.pieces := by
  intro before statement after given occurs
  have same := holds_statementOf (Element.ShowsCase fun inner => ¬inner.IsLeveled tokens) elements
    (stable_showsCase elements leveled.uncut) before statement after given
  exact leveled.cases (same.1 occurs)

end Leveled

theorem leveled_groupOf (vocabulary : Vocabulary) (depth : Nat) (frame : Frame)
    (tokens : List Token) (content : List Element) (closing : Token)
    (leveled : Leveled tokens (depth + 1) content) :
    (groupOf vocabulary depth frame content closing).Yields fun group =>
      Leveled tokens depth [.group group] := by
  unfold groupOf
  refine (Build.Yields.any _).bind fun _ _ => ?_
  simp only
  -- The pair around the content is closed here, so the expressions are made at the depth outside.
  have cased := leveled.groupCases
  rw [Nat.add_sub_cancel] at cased
  generalize groupCases depth content = content' at cased ⊢
  split
  · refine cased.statementOf.bind fun body sound => .pure _ (.group _ rfl (by simp) ?_)
    rintro _ ⟨⟩
    exact sound
  · exact .pure _ (.group _ rfl cased.cases (by simp))

def Waiting (tokens : List Token) : List Frame → Prop
  | [] => True
  | frame :: frames => Leveled tokens frames.length frame.before ∧ Waiting tokens frames

theorem leveled_groupTokens (vocabulary : Vocabulary) (tokens read ahead : List Token)
    (frames : List Frame) (current : List Element) (whole : tokens = read ++ ahead)
    (counted : opens read = frames.length + closes read) (waiting : Waiting tokens frames)
    (leveled : Leveled tokens frames.length current) :
    (groupTokens vocabulary frames current ahead).Yields (Leveled tokens 0) := by
  induction ahead generalizing read frames current with
  | nil =>
    cases frames with
    | nil =>
      rw [groupTokens]
      exact (Build.Yields.any _).bind fun _ _ => .pure _ leveled.groupCases
    | cons frame frames =>
      rw [groupTokens]
      exact .throw _
  | cons token rest ih =>
    have onward : tokens = read ++ [token] ++ rest := by simp [whole]
    by_cases isOpen : token.kind = .parenOpen
    · unfold groupTokens
      rw [if_pos isOpen]
      refine (Build.Yields.any _).bind fun _ _ =>
        ih (read ++ [token]) (⟨token, current⟩ :: frames) [] onward ?_ ⟨leveled, waiting⟩ .nil
      rw [opens_concat, closes_concat, if_pos isOpen, if_neg (by simp [isOpen]), List.length_cons]
      omega
    by_cases isClose : token.kind = .parenClose
    · cases frames with
      | nil =>
        rw [groupTokens, if_neg isOpen, if_pos isClose]
        exact .throw _
      | cons frame frames =>
        rw [groupTokens, if_neg isOpen, if_pos isClose]
        refine (Build.Yields.any _).bind fun _ _ => ?_
        refine (leveled_groupOf vocabulary frames.length frame tokens current token
          leveled).bind fun group made => ?_
        refine ih (read ++ [token]) frames _ onward ?_ waiting.2 (waiting.1.append made)
        rw [List.length_cons] at counted
        rw [opens_concat, closes_concat, if_neg isOpen, if_pos isClose]
        omega
    · unfold groupTokens
      rw [if_neg isOpen, if_neg isClose]
      refine ih (read ++ [token]) frames _ onward ?_ waiting
        (leveled.append (.token token ⟨read, rest, whole, counted⟩))
      rwa [opens_concat, closes_concat, if_neg isOpen, if_neg isClose]

theorem isLeveled_of_walk (vocabulary : Vocabulary) (part : List Token) (inner : Case Element)
    (has : (walk vocabulary part).statement.HasCase inner) :
    inner.IsLeveled (countedTokens part) := by
  have built : (build vocabulary (countedTokens part)).Yields fun statement =>
      ¬Occurs (Element.ShowsCase fun inner => ¬inner.IsLeveled (countedTokens part))
        statement.pieces := by
    exact (leveled_groupTokens vocabulary _ [] _ [] [] rfl rfl trivial .nil).bind
      fun _ leveled => leveled.statementOf
  obtain ⟨progress, run⟩ := exists_built_of_hasCase vocabulary part inner has
  by_contra flawed
  exact built _ _ _ run ((occurs_showsCase_iff _).2 ⟨inner, has, flawed⟩)

/-- Whatever words and names of functions there are, the depth of a CASE expression is one less
than the number of pairs of parentheses around its CASE. It is that number only where there is no
such pair. -/
theorem case_depths (registry : Registry) (vocabulary : Vocabulary) (source : String)
    (tokens part : List Token) (lexed : tokens? registry source = .ok tokens)
    (stands : part = tokens ∨ part ∈ splitStatements tokens) (case : Case Element)
    (has : (walk vocabulary part).statement.HasCase case) :
    case.keyword ∈ part ∧
    case.depth = (pairsAround part case.keyword case.keyword).ncard - 1 ∧
    (case.depth = (pairsAround part case.keyword case.keyword).ncard ↔
      pairsAround part case.keyword case.keyword = ∅) := by
  obtain ⟨member, isCase⟩ := (isWorded_of_walk vocabulary part case has).keyword
  obtain ⟨level, standing, depth⟩ := isLeveled_of_walk vocabulary part case has
  obtain ⟨progress, run⟩ := exists_built_of_hasCase vocabulary part case has
  obtain ⟨spans, nest, -⟩ := nested_build vocabulary (countedTokens part) _ _ _ run
  simp only [Token.isKeyword, Bool.and_eq_true, Token.isReserved, decide_eq_true_eq] at isCase
  have counted := nest.ncard_eq_level (ascending_counted _ source tokens part lexed stands)
    case.keyword (by simp [isCase.1]) (by simp [isCase.1]) level standing
  rw [pairsAround_counted] at counted
  refine ⟨mem_of_counted _ member, counted ▸ depth, ?_⟩
  rw [← Set.ncard_eq_zero (finite_pairsAround part _ _)]
  omega

def Element.case? : Element → Option (Case Element)
  | .case inner => some inner
  | _ => none

theorem exists_case_of_any (elements : List Element) (property : Case Element → Bool)
    (found : elements.any (·.case?.any property) = true) :
    ∃ case, .case case ∈ elements ∧ property case = true := by
  obtain ⟨element, member, holds⟩ := List.any_eq_true.1 found
  cases element with
  | token | group => cases holds
  | case case => exact ⟨case, member, holds⟩

theorem exists_group_of_any (elements : List Element) (property : Group → Bool)
    (found : elements.any (·.group?.any property) = true) :
    ∃ group, .group group ∈ elements ∧ property group = true := by
  obtain ⟨element, member, holds⟩ := List.any_eq_true.1 found
  cases element with
  | token | case => cases holds
  | group group => exact ⟨group, member, holds⟩

def enclosedTwice : List Token :=
  [.plain .identifier "f" 0, .plain .parenOpen "(" 1, .plain .parenOpen "(" 2,
    ⟨.reservedWord, "case", 3, "CASE"⟩, .plain .blank " " 7, ⟨.reservedWord, "when", 8, "WHEN"⟩,
    .plain .blank " " 12, .plain .identifier "a" 13, .plain .blank " " 14,
    ⟨.reservedWord, "then", 15, "THEN"⟩, .plain .blank " " 19, .plain .identifier "b" 20,
    .plain .blank " " 21, ⟨.reservedWord, "end", 22, "END"⟩, .plain .parenClose ")" 25,
    .plain .parenClose ")" 26]

theorem case_depths_call :
    tokens? (Registry.common {}) "f((case when a then b end))" = .ok enclosedTwice ∧
    ∃ case, (walk ⟨.common {}, []⟩ enclosedTwice).statement.HasCase case ∧
      case.depth = 1 ∧ (pairsAround enclosedTwice case.keyword case.keyword).ncard = 2 := by
  have lexed := (Token.tokens?_eq_ok_iff (Registry.common {}) "f((case when a then b end))"
    enclosedTwice).2 (by decide +kernel)
  obtain ⟨outer, first, found⟩ := exists_group_of_any
    (walk ⟨.common {}, []⟩ enclosedTwice).statement.pieces
    (fun group => group.elements.any (·.group?.any fun group =>
      group.elements.any (·.case?.any fun case => case.depth = 1))) (by decide +kernel)
  obtain ⟨inner, second, found⟩ := exists_group_of_any _ _ found
  obtain ⟨case, third, one⟩ := exists_case_of_any _ _ found
  have has : (walk ⟨.common {}, []⟩ enclosedTwice).statement.HasCase case :=
    ⟨_, first, .element second (.element third .self)⟩
  obtain ⟨-, depth, -⟩ :=
    case_depths (.common {}) ⟨.common {}, []⟩ _ enclosedTwice enclosedTwice lexed (.inl rfl) case
      has
  rw [decide_eq_true_eq] at one
  exact ⟨lexed, case, has, one, by omega⟩

def enclosedCase : List Token :=
  [⟨.reservedWord, "select", 0, "SELECT"⟩, .plain .blank " " 6, .plain .parenOpen "(" 7,
    ⟨.reservedWord, "case", 8, "CASE"⟩, .plain .blank " " 12, ⟨.reservedWord, "when", 13, "WHEN"⟩,
    .plain .blank " " 17, .plain .identifier "a" 18, .plain .blank " " 19,
    ⟨.reservedWord, "then", 20, "THEN"⟩, .plain .blank " " 24, .plain .identifier "b" 25,
    .plain .blank " " 26, ⟨.reservedWord, "end", 27, "END"⟩, .plain .parenClose ")" 30]

/-- The expression is kept as if no parentheses were around it. -/
theorem enclosed_case_depth :
    tokens? (Registry.common {}) "select (case when a then b end)" = .ok enclosedCase ∧
    ¬(walk ⟨.common {}, []⟩ enclosedCase).PassesThrough ∧
    ∃ case, (walk ⟨.common {}, []⟩ enclosedCase).statement.HasCase case ∧
      case.depth = 0 ∧
      case.depth ≠ (pairsAround enclosedCase case.keyword case.keyword).ncard := by
  have lexed := (Token.tokens?_eq_ok_iff (Registry.common {}) "select (case when a then b end)"
    enclosedCase).2 (by decide +kernel)
  have shaped : ¬(walk ⟨.common {}, []⟩ enclosedCase).PassesThrough := by
    have quiet : (walk ⟨.common {}, []⟩ enclosedCase).progress.notices = [] := by
      decide +kernel
    rintro ⟨misfit, member⟩
    simp [quiet] at member
  obtain ⟨group, first, found⟩ := exists_group_of_any
    (walk ⟨.common {}, []⟩ enclosedCase).statement.pieces
    (fun group => group.elements.any (·.case?.any fun case =>
      case.depth = 0 ∧ case.keyword.start = 8)) (by decide +kernel)
  obtain ⟨case, second, own⟩ := exists_case_of_any _ _ found
  rw [decide_eq_true_eq] at own
  refine ⟨lexed, shaped, case, ⟨_, first, .element second .self⟩, own.1, ?_⟩
  have around : (.plain .parenOpen "(" 7, .plain .parenClose ")" 30) ∈
      pairsAround enclosedCase case.keyword case.keyword := by
    refine ⟨⟨rfl, rfl, enclosedCase.take 2, (enclosedCase.drop 3).dropLast, [], rfl, by decide⟩, ?_⟩
    rw [own.2]
    decide
  rw [own.1]
  exact (Set.ncard_ne_zero_of_mem around (finite_pairsAround _ _ _)).symm

end SqlLayout.Tree
