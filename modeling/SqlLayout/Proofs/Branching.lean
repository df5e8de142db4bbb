import SqlLayout.Proofs.AligningForms
import SqlLayout.Proofs.Bracketing
import SqlLayout.Proofs.Grouping
import SqlLayout.Proofs.Normalizing
import SqlLayout.Proofs.Phrasing

/-! The CASE expressions of a tree and their lines. One is made where the run that it stands in is
complete, and from there it may go into another one, into a statement or into a list of items.
Nothing that happens to it on the way changes it, so its words are always words of the text: single
ones, which are written in full on the lines that they begin. -/
namespace SqlLayout.Tree

inductive Element.HasCase (inner : Case Element) : Element → Prop
  | self : Element.HasCase inner (.case inner)
  | element {group : Group} {element : Element} (inside : element ∈ group.elements)
      (has : Element.HasCase inner element) : Element.HasCase inner (.group group)
  | item {group : Group} {item : List Element} {element : Element} (stands : item ∈ group.items)
      (inside : element ∈ item) (has : Element.HasCase inner element) :
      Element.HasCase inner (.group group)
  | body {group : Group} {body : Statement} {element : Element} (holds : group.body = some body)
      (inside : element ∈ body.pieces) (has : Element.HasCase inner element) :
      Element.HasCase inner (.group group)
  | operand {case : Case Element} {element : Element} (inside : element ∈ case.operand)
      (has : Element.HasCase inner element) : Element.HasCase inner (.case case)
  | branch {case : Case Element} {branch : Branch Element} {element : Element}
      (stands : branch ∈ case.branches) (inside : element ∈ branch.elements)
      (has : Element.HasCase inner element) : Element.HasCase inner (.case case)

def Statement.HasCase (inner : Case Element) (statement : Statement) : Prop :=
  Occurs (Element.HasCase inner) statement.pieces

def Element.ShowsCase (property : Case Element → Prop) (element : Element) : Prop :=
  ∃ inner, element.HasCase inner ∧ property inner

section

variable {property : Case Element → Prop}

theorem occurs_showsCase_iff (elements : List Element) :
    Occurs (Element.ShowsCase property) elements ↔
      ∃ inner, Occurs (Element.HasCase inner) elements ∧ property inner := by
  constructor
  · rintro ⟨element, member, inner, has, holds⟩
    exact ⟨inner, ⟨element, member, has⟩, holds⟩
  · rintro ⟨inner, ⟨element, member, has⟩, holds⟩
    exact ⟨element, member, inner, has, holds⟩

theorem not_showsCase_token (token : Token) : ¬(Element.token token).ShowsCase property := by
  rintro ⟨inner, has, -⟩
  cases has

theorem showsCase_group (group : Group) :
    (Element.group group).ShowsCase property ↔
      Occurs (Element.ShowsCase property) group.elements ∨
        Occurs (Element.ShowsCase property) group.items.flatten ∨
        ∃ body, group.body = some body ∧ Occurs (Element.ShowsCase property) body.pieces := by
  constructor
  · rintro ⟨inner, has, holds⟩
    cases has with
    | element inside has => exact .inl ⟨_, inside, inner, has, holds⟩
    | item stands inside has =>
      exact .inr (.inl ⟨_, List.mem_flatten.2 ⟨_, stands, inside⟩, inner, has, holds⟩)
    | body stands inside has => exact .inr (.inr ⟨_, stands, _, inside, inner, has, holds⟩)
  · rintro (⟨element, inside, inner, has, holds⟩ | ⟨element, inside, inner, has, holds⟩ |
      ⟨body, stands, element, inside, inner, has, holds⟩)
    · exact ⟨inner, .element inside has, holds⟩
    · obtain ⟨item, stands, within⟩ := List.mem_flatten.1 inside
      exact ⟨inner, .item stands within has, holds⟩
    · exact ⟨inner, .body stands inside has, holds⟩

theorem showsCase_case (case : Case Element) :
    (Element.case case).ShowsCase property ↔
      property case ∨ Occurs (Element.ShowsCase property) case.content := by
  rw [Case.content, occurs_append]
  constructor
  · rintro ⟨inner, has, holds⟩
    cases has with
    | self => exact .inl holds
    | operand inside has => exact .inr (.inl ⟨_, inside, inner, has, holds⟩)
    | branch stands inside has =>
      exact .inr (.inr ⟨_, List.mem_flatMap.2 ⟨_, stands, List.mem_cons_of_mem _ inside⟩, inner,
        has, holds⟩)
  · rintro (holds | ⟨element, inside, inner, has, holds⟩ | ⟨element, inside, inner, has, holds⟩)
    · exact ⟨case, .self, holds⟩
    · exact ⟨inner, .operand inside has, holds⟩
    · obtain ⟨branch, stands, within⟩ := List.mem_flatMap.1 inside
      rcases List.mem_cons.1 within with rfl | behind
      · cases has
      · exact ⟨inner, .branch stands behind has, holds⟩

/-- The items of a tuple are cut from its run, so that it has the expressions of the run. -/
theorem stable_showsCase (elements : List Element) (uncut : Uncut elements) :
    Stable (Element.ShowsCase property) elements := by
  intro inner member
  have items : Occurs (Element.ShowsCase property) (splitItems inner.elements).items.flatten →
      Occurs (Element.ShowsCase property) inner.elements := by
    rintro ⟨element, inside, shows⟩
    obtain ⟨item, stands, within⟩ := List.mem_flatten.1 inside
    exact ⟨element, items_subset _ _ stands within, shows⟩
  rw [showsCase_group, showsCase_group, uncut inner member, List.flatten_nil]
  simp only [Group.asTuple, not_occurs_nil, false_or]
  grind

end

structure Case.IsWorded (tokens : List Token) (case : Case Element) : Prop where
  keyword : case.keyword ∈ tokens ∧ case.keyword.isKeyword ["CASE"] = true
  branches : ∀ branch ∈ case.branches,
    branch.keyword ∈ tokens ∧ branch.keyword.isKeyword ["WHEN", "ELSE"] = true
  closing : case.closing ∈ tokens ∧ case.closing.isKeyword ["END"] = true

/-- A run that was read from some tokens, with the expressions made of them. -/
structure Worded (tokens : List Token) (elements : List Element) : Prop where
  uncut : Uncut elements
  direct : ∀ token, .token token ∈ elements → token ∈ tokens
  cases : ¬Occurs (Element.ShowsCase fun inner => ¬inner.IsWorded tokens) elements

namespace Worded

variable {tokens : List Token} {elements others : List Element}

theorem nil : Worded tokens [] :=
  ⟨by simp [Uncut], by simp, by simp⟩

theorem of_subset (worded : Worded tokens elements) (subset : others ⊆ elements) :
    Worded tokens others where
  uncut := worded.uncut.of_subset subset
  direct := fun token member => worded.direct token (subset member)
  cases := fun ⟨element, member, shows⟩ => worded.cases ⟨element, subset member, shows⟩

theorem append (front : Worded tokens elements) (behind : Worded tokens others) :
    Worded tokens (elements ++ others) where
  uncut := fun inner member =>
    (List.mem_append.1 member).elim (front.uncut inner) (behind.uncut inner)
  direct := fun token member =>
    (List.mem_append.1 member).elim (front.direct token) (behind.direct token)
  cases := by
    rw [occurs_append, not_or]
    exact ⟨front.cases, behind.cases⟩

theorem head {element : Element} (worded : Worded tokens (element :: elements)) :
    Worded tokens [element] :=
  worded.of_subset (by simp)

theorem tail {element : Element} (worded : Worded tokens (element :: elements)) :
    Worded tokens elements :=
  worded.of_subset (List.subset_cons_self element elements)

theorem cons {element : Element} (first : Worded tokens [element])
    (behind : Worded tokens elements) : Worded tokens (element :: elements) :=
  first.append behind

theorem token (token : Token) (member : token ∈ tokens) : Worded tokens [.token token] where
  uncut := by simp [Uncut]
  direct := by simp [member]
  cases := by simp [not_showsCase_token]

theorem group (group : Group) (uncut : group.items = [])
    (cases : ¬Occurs (Element.ShowsCase fun inner => ¬inner.IsWorded tokens) group.elements)
    (body : ∀ body, group.body = some body →
      ¬Occurs (Element.ShowsCase fun inner => ¬inner.IsWorded tokens) body.pieces) :
    Worded tokens [.group group] where
  uncut := by simp [Uncut, uncut]
  direct := by simp
  cases := by
    rw [occurs_cons, showsCase_group, uncut, List.flatten_nil]
    simp only [not_occurs_nil, false_or, or_false, not_or, not_exists, not_and]
    exact ⟨cases, body⟩

theorem groupCases (worded : Worded tokens elements) (depth : Nat) :
    Worded tokens (Tree.groupCases depth elements) := by
  fun_induction Tree.groupCases depth elements with
  | case1 => exact .nil
  | case2 token rest opens inner closing after found operand branches cut ihInner ihAfter =>
    have whole := untilEnd_flatten 0 rest inner after closing found
    have first := worded.direct token (by simp)
    have last := worded.direct closing (by simp [whole])
    have closes := (openAfter_of_found 0 rest inner after closing found).2.2
    have content := ihInner (worded.of_subset (by rw [whole]; intro element; simp +contextual))
    have behind := ihAfter (worded.of_subset (by rw [whole]; intro element; simp +contextual))
    have parts := pieces_cutAt (fun token _ => token.isKeyword ["WHEN", "ELSE"])
      (Tree.groupCases depth inner)
    have made : cutAt (fun token _ => token.isKeyword ["WHEN", "ELSE"])
      (Tree.groupCases depth inner) = (operand, branches) := cut
    have keywords := (not_keyword_of_cutAtWords ["WHEN", "ELSE"] (Tree.groupCases depth inner)).2
    rw [cut] at keywords
    rw [made] at parts
    have own : Case.IsWorded tokens ⟨token, closing, depth, operand, branches⟩ := by
      refine ⟨⟨first, opens⟩, fun branch stands => ⟨?_, (keywords branch stands).1⟩, ⟨last, closes⟩⟩
      refine content.direct branch.keyword ?_
      rw [← parts]
      exact List.mem_append_right _ (List.mem_flatMap.2 ⟨branch, stands, List.mem_cons_self⟩)
    refine .cons ⟨by simp [Uncut], by simp, ?_⟩ behind
    rw [occurs_cons, showsCase_case, Case.content, parts]
    simp only [own, not_true_eq_false, content.cases, not_occurs_nil, or_self, not_false_eq_true]
  | case3 token rest opens missing ih => exact worded.head.cons (ih worded.tail)
  | case4 token rest other ih => exact worded.head.cons (ih worded.tail)
  | case5 element rest other ih => exact worded.head.cons (ih worded.tail)

theorem statementOf (worded : Worded tokens elements) :
    (Tree.statementOf elements).Yields fun statement =>
      ¬Occurs (Element.ShowsCase fun inner => ¬inner.IsWorded tokens) statement.pieces := by
  intro before statement after given occurs
  have same := holds_statementOf (Element.ShowsCase fun inner => ¬inner.IsWorded tokens) elements
    (stable_showsCase elements worded.uncut) before statement after given
  exact worded.cases (same.1 occurs)

end Worded

theorem worded_groupOf (vocabulary : Vocabulary) (depth : Nat) (frame : Frame)
    (tokens : List Token) (content : List Element) (closing : Token)
    (worded : Worded tokens content) :
    (groupOf vocabulary depth frame content closing).Yields fun group =>
      Worded tokens [.group group] := by
  unfold groupOf
  refine (Build.Yields.any _).bind fun _ _ => ?_
  simp only
  have cased := worded.groupCases depth
  generalize groupCases depth content = content' at cased ⊢
  split
  · refine cased.statementOf.bind fun body sound => .pure _ (.group _ rfl (by simp) ?_)
    rintro _ ⟨⟩
    exact sound
  · exact .pure _ (.group _ rfl cased.cases (by simp))

theorem worded_groupTokens (vocabulary : Vocabulary) (tokens ahead : List Token)
    (frames : List Frame) (current : List Element) (inside : ahead ⊆ tokens)
    (waiting : ∀ frame ∈ frames, Worded tokens frame.before) (worded : Worded tokens current) :
    (groupTokens vocabulary frames current ahead).Yields (Worded tokens) := by
  induction ahead generalizing frames current with
  | nil =>
    cases frames with
    | nil =>
      rw [groupTokens]
      exact (Build.Yields.any _).bind fun _ _ => .pure _ (worded.groupCases 0)
    | cons frame frames =>
      rw [groupTokens]
      exact .throw _
  | cons token rest ih =>
    rw [List.cons_subset] at inside
    by_cases opens : token.kind = .parenOpen
    · unfold groupTokens
      rw [if_pos opens]
      exact (Build.Yields.any _).bind fun _ _ => ih (⟨token, current⟩ :: frames) [] inside.2
        (List.forall_mem_cons.2 ⟨worded, waiting⟩) .nil
    by_cases closes : token.kind = .parenClose
    · cases frames with
      | nil =>
        rw [groupTokens, if_neg opens, if_pos closes]
        exact .throw _
      | cons frame frames =>
        rw [List.forall_mem_cons] at waiting
        rw [groupTokens, if_neg opens, if_pos closes]
        refine (Build.Yields.any _).bind fun _ _ => ?_
        exact (worded_groupOf vocabulary frames.length frame tokens current token worded).bind
          fun group made => ih frames _ inside.2 waiting.2 (waiting.1.append made)
    · unfold groupTokens
      rw [if_neg opens, if_neg closes]
      exact ih frames _ inside.2 waiting (worded.append (.token token inside.1))

theorem exists_built_of_hasCase (vocabulary : Vocabulary) (part : List Token) (inner : Case Element)
    (has : (walk vocabulary part).statement.HasCase inner) :
    ∃ progress, (build vocabulary (countedTokens part)).run {} =
      (.ok (walk vocabulary part).statement, progress) := by
  rcases walk_cases vocabulary part with
    ⟨-, statement, progress, run, walked⟩ | ⟨-, misfit, progress, run, walked⟩
  · rw [walked]
    exact ⟨progress, run⟩
  · rw [walked] at has
    obtain ⟨element, member, inside⟩ := has
    obtain ⟨token, -, rfl⟩ := List.mem_map.1 (by
      simpa [Statement.ofForm, Statement.pieces, Form.pieces] using member)
    cases inside

theorem isWorded_of_walk (vocabulary : Vocabulary) (part : List Token) (inner : Case Element)
    (has : (walk vocabulary part).statement.HasCase inner) :
    inner.IsWorded (countedTokens part) := by
  have built : (build vocabulary (countedTokens part)).Yields fun statement =>
      ¬Occurs (Element.ShowsCase fun inner => ¬inner.IsWorded (countedTokens part))
        statement.pieces := by
    exact (worded_groupTokens vocabulary _ _ [] [] (List.Subset.refl _) (by simp) .nil).bind
      fun _ worded => worded.statementOf
  obtain ⟨progress, run⟩ := exists_built_of_hasCase vocabulary part inner has
  by_contra flawed
  exact built _ _ _ run ((occurs_showsCase_iff _).2 ⟨inner, has, flawed⟩)

end SqlLayout.Tree

namespace SqlLayout.Token

open Keyword Text

theorem ReadFrom.isPlainWord {registry : Registry} {token : Token} {behind : List Char}
    (spells : registry.compounds.spells [] = true) (read : ReadFrom registry token behind)
    (words : List String) (singles : ∀ word ∈ words, ' ' ∉ word.toList)
    (isKeyword : token.isKeyword words = true) :
    IsPlainWord token.text.toList ∧ token.contents = upper token.text ∧
      token.contents ∈ words := by
  simp only [Token.isKeyword, Bool.and_eq_true, List.contains_iff_mem] at isKeyword
  obtain ⟨reserved, member⟩ := isKeyword
  have kind : token.kind = .reservedWord := by simpa [isReserved] using reserved
  have apart := singles _ member
  have called := read.contents_eq spells
  rw [if_pos reserved] at called
  cases read.wordRead (by rw [kind]; rfl) with
  | words words given worded ends named contents free =>
    have whole := worded.upper_collapse
    rw [← called] at whole
    rw [whole] at apart
    generalize same : token.text.toList = chars at worded
    cases worded with
    | single plain =>
      refine ⟨plain, ?_, member⟩
      rw [whole, List.map_singleton, upperWord, ← same, String.ofList_toList]
      simp
    | cons plain other blank more =>
      cases more with
      | single | cons => simp at apart
  | special _ _ _ _ _ _ _ other => simp [kind] at other

section

variable {text : String}

theorem IsPlainWord.text_ne_empty (plain : IsPlainWord text.toList) : text ≠ "" := by
  rintro rfl
  exact absurd plain.length_pos (by decide)

theorem IsPlainWord.text_visible (plain : IsPlainWord text.toList) :
    ∀ c ∈ text.toList, Text.isBlank c = false :=
  fun c member => isBlank_of_isNamePart c (plain.parts c member)

end

end SqlLayout.Token

namespace SqlLayout.Layout

open Keyword Style Text SqlLayout.Tree
open SqlLayout.Token (IsPlainWord ReadFrom)

theorem visible_apply (choice : WordCase) (text : String)
    (visible : ∀ c ∈ text.toList, isBlank c = false) :
    ∀ c ∈ (choice.apply text).toList, isBlank c = false := by
  intro c member
  rcases choice.mem_apply text c member with kept | letter
  · exact visible c kept
  · exact isBlank_of_isLetterCode c letter

theorem length_apply_case (choice : WordCase) (text : String) (isCase : upper text = "CASE") :
    (choice.apply text).length = 4 := by
  have whole : text.length = 4 := by
    have apart : ∀ entry ∈ upperExpansions,
        entry.2.length = 1 ∨ ¬entry.2.map Char.ofNat <:+: "CASE".toList := by
      decide +kernel
    rw [← length_upper text (by rwa [isCase]), isCase]
    rfl
  cases choice with
  | asIs => exact whole
  | upper =>
    rw [WordCase.apply, isCase]
    rfl
  | lower =>
    rw [WordCase.apply, length_lower text ?_, whole]
    intro member
    have kept : 'İ' ∈ (upper text).toList := by
      rw [upper_toList]
      exact List.mem_flatMap.2 ⟨'İ', member, by decide +kernel⟩
    rw [isCase] at kept
    exact absurd kept (by decide)

namespace Sheet

variable {sheet : Sheet} {token : Token}

theorem cased_plain (sheet : Sheet) (plain : IsPlainWord token.text.toList)
    (called : token.contents = upper token.text) (last : Option Token) :
    ∃ (choice : WordCase) (word : String), (word = token.text ∨ word = upper token.text) ∧
      sheet.cased token last false = choice.apply word := by
  have spelling := sheet.spelling_cased token last false
  unfold Spelling at spelling
  rw [called] at spelling
  split at spelling
  · have alone := collapse_of_visible token.text plain.text_ne_empty plain.text_visible
    obtain ⟨choice, own | collapsed | upper⟩ := spelling
    · exact ⟨choice, _, .inl rfl, own⟩
    · exact ⟨choice, _, .inl rfl, alone ▸ collapsed⟩
    · exact ⟨choice, _, .inr rfl, upper⟩
  · exact ⟨.asIs, _, .inl rfl, spelling⟩

theorem legible_of_plain (plain : IsPlainWord token.text.toList)
    (called : token.contents = upper token.text) (solid : token.isComment = false) :
    sheet.Legible token := by
  have shown (last : Option Token) : sheet.cased token last false ≠ "" ∧
      ∀ c ∈ (sheet.cased token last false).toList, isBlank c = false := by
    obtain ⟨choice, word, isWord, cased⟩ := sheet.cased_plain plain called last
    have sound : word ≠ "" ∧ ∀ c ∈ word.toList, isBlank c = false := by
      rcases isWord with rfl | rfl
      · exact ⟨plain.text_ne_empty, plain.text_visible⟩
      · exact ⟨WordCase.apply_ne_empty .upper _ plain.text_ne_empty,
          visible_apply .upper _ plain.text_visible⟩
    rw [cased]
    exact ⟨choice.apply_ne_empty word sound.1, visible_apply choice word sound.2⟩
  exact ⟨solid, fun last => (shown last).1, fun last => (shown last).2⟩

theorem spelt_of_isWorded {registry : Registry} (spells : registry.compounds.spells [] = true)
    (tokens : List Token) (reads : ∀ token ∈ tokens, ∃ behind, ReadFrom registry token behind)
    (case : Case Element) (worded : case.IsWorded tokens) : sheet.Spelt case := by
  have single (words : List String) (singles : ∀ word ∈ words, ' ' ∉ word.toList) (token : Token)
      (word : token ∈ tokens ∧ token.isKeyword words = true) :
      IsPlainWord token.text.toList ∧ token.contents = upper token.text ∧
        token.contents ∈ words ∧ sheet.Legible token := by
    obtain ⟨behind, read⟩ := reads token word.1
    obtain ⟨plain, called, member⟩ := read.isPlainWord spells words singles word.2
    refine ⟨plain, called, member, legible_of_plain plain called ?_⟩
    simp only [Token.isKeyword, Bool.and_eq_true, Token.isReserved, decide_eq_true_eq] at word
    rw [Token.isComment, word.2.1]
    rfl
  obtain ⟨plain, called, isCase, legible⟩ := single ["CASE"] (by decide) case.keyword worded.keyword
  rw [called, List.mem_singleton] at isCase
  refine ⟨legible, fun last => ?_, fun branch stands => ?_, ?_⟩
  · obtain ⟨choice, word, isWord, cased⟩ := sheet.cased_plain plain called last
    have same : upper word = "CASE" := by
      rcases isWord with rfl | rfl
      · exact isCase
      · rw [upper_upper, isCase]
    rw [cased, length_apply_case choice word same]
    exact (length_apply_case .asIs case.keyword.text isCase).symm
  · exact (single ["WHEN", "ELSE"] (by decide) branch.keyword
      (worded.branches branch stands)).2.2.2
  · exact (single ["END"] (by decide) case.closing worded.closing).2.2.2

end Sheet

open SqlLayout.Token (splitStatements tokens? mem_of_mem_splitStatements readFrom_of_mem)

/-- In every style, and whatever other words there are, the CASE expressions of a statement are
aligned, however deep they stand. Whatever a writer that starts lines has written before, the
keyword goes behind it, its WHEN and ELSE begin lines of their own two columns further in, and its
END begins one at the column of the keyword. A layout draws CASE expressions in states that a
writer can be in, with what has been written at the front of its text, unless it tries whether a
subquery fits on a line: drawn otherwise anywhere else, the text would be the same. -/
theorem cases_aligned (registry : Registry) (phrases : registry.compounds = commonPhrases)
    (vocabulary : Vocabulary) (source : String) (tokens part : List Token) (sheet : Sheet)
    (lexed : tokens? registry source = .ok tokens)
    (stands : part = tokens ∨ part ∈ splitStatements tokens) :
    (∀ case : Case Element, (walk vocabulary part).statement.HasCase case →
      ∀ (height : Nat) (w : Writer), w.Reached → w.inline = false →
        sheet.Aligns (sheet.painter height) case w) ∧
    ∀ (terminator : Option Token) (drawCase : Nat → Case Element → Writer → Writer),
      (∀ (height : Nat) (case : Case Element) (w : Writer), w.Reached →
        (w.inline = false → (sheet.caseExpression (sheet.painter height) case w).chars <+:
          (sheet.render (walk vocabulary part).statement terminator).toList) →
        drawCase height case w = sheet.caseExpression (sheet.painter height) case w) →
      sheet.renderWith drawCase (walk vocabulary part).statement terminator =
        sheet.render (walk vocabulary part).statement terminator := by
  have spells := Registry.spells_of_common phrases
  have reads (token : Token) (member : token ∈ countedTokens part) :
      ∃ behind, ReadFrom registry token behind := by
    refine readFrom_of_mem _ source tokens lexed token ?_
    have inside := mem_of_counted token member
    rcases stands with rfl | statement
    · exact inside
    · exact mem_of_mem_splitStatements tokens part statement token inside
  refine ⟨fun case has height w reached lines => ?_, fun terminator drawCase same => ?_⟩
  · have worded := isWorded_of_walk vocabulary part case has
    exact (Sheet.spelt_of_isWorded spells _ reads case worded).aligns
      (Sheet.leads_painter height) reached lines
  · exact Sheet.renderWith_eq drawCase _ terminator same

def branchedCall : List Token :=
  [.plain .identifier "f" 0, .plain .parenOpen "(" 1, ⟨.reservedWord, "case", 2, "CASE"⟩,
    .plain .blank " " 6, .plain .identifier "x" 7, .plain .blank " " 8,
    ⟨.reservedWord, "when", 9, "WHEN"⟩, .plain .blank " " 13, .plain .numberLiteral "1" 14,
    .plain .blank " " 15, ⟨.reservedWord, "then", 16, "THEN"⟩, .plain .blank " " 20,
    .plain .identifier "a" 21, .plain .blank " " 22, ⟨.reservedWord, "end", 23, "END"⟩,
    .plain .parenClose ")" 26]

theorem cases_aligned_call :
    let sheet : Sheet := ⟨{}, .common {}, 80, []⟩
    let statement := (walk ⟨.common {}, []⟩ branchedCall).statement
    tokens? (Registry.common {}) "f(case x when 1 then a end)" = .ok branchedCall ∧
    (∃ case, statement.HasCase case ∧
      sheet.Aligns (sheet.painter 2) case (({} : Writer).write "f(")) ∧
    sheet.renderWith (fun height case w =>
        if w.lineHasContent && w.pieces.isEmpty then w
        else sheet.caseExpression (sheet.painter height) case w) statement none =
      "f(CASE x\n    WHEN 1 THEN a\n  END)" := by
  intro sheet statement
  have lexed := (Token.tokens?_eq_ok_iff (Registry.common {}) "f(case x when 1 then a end)"
    branchedCall).2 (by decide +kernel)
  obtain ⟨aligned, only⟩ := cases_aligned (.common {}) rfl ⟨.common {}, []⟩ _ branchedCall
    branchedCall sheet lexed (.inl rfl)
  refine ⟨lexed, ?_, (only none _ fun height case w reached _ => ?_).trans (by decide +kernel)⟩
  · have inside : (statement.pieces.any fun element => element.group?.any fun group =>
        group.elements.any fun element => !element.isGroup && element.token?.isNone) = true := by
      decide +kernel
    obtain ⟨outer, member, within⟩ := List.any_eq_true.1 inside
    cases outer with
    | token | case => cases within
    | group group =>
      obtain ⟨element, stands, isCase⟩ := List.any_eq_true.1 within
      cases element with
      | token | group => cases isCase
      | case inner =>
        have has : statement.HasCase inner := ⟨_, member, .element stands .self⟩
        exact ⟨inner, has, aligned inner has 2 _ ⟨false, .step .refl (.write "f(" _)⟩ (by decide)⟩
  · refine if_neg fun odd => ?_
    rw [Bool.and_eq_true, List.isEmpty_iff] at odd
    exact (reached.sound.filled odd.1).2.1 odd.2

end SqlLayout.Layout
