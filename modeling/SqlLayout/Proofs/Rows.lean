import SqlLayout.Proofs.Laying
import SqlLayout.Proofs.Placing

/-! Rows of tokens as a layout leaves them. What is laid stands in a row, and where a row
has no blank the rules of spacing allow it, so its tokens join; a hyphen meets another one
only if it has one operand. The rows of a text stand below each other with an empty line
between them, and then they are one row again. -/
namespace SqlLayout.Layout.Placement

open Keyword

/-- Tokens in a row, as the rules of spacing allow it. -/
structure InRow (sheet : Sheet) (tokens : List Token) (placements : List Placement) : Prop where
  tokens : placements.map token = tokens
  sound : ∀ placement ∈ placements, placement.Sound
  apart : ∀ front placement back, placements = front ++ placement :: back → front ≠ [] →
    placement.gap = [] → MayTouch sheet (front.map token) placement.token
  parts : placements.IsChain Parts

theorem exists_row {sheet : Sheet} {tokens : List Token} {chars : List Char}
    (laid : Laid sheet tokens chars) :
    ∃ placements, InRow sheet tokens placements ∧ row placements = chars := by
  induction laid with
  | nil => exact ⟨[], ⟨rfl, by simp, by simp, .nil⟩, rfl⟩
  | @snoc tokens chars _ gap token text blank _ spelling filled apart breaks ih =>
    obtain ⟨placements, inRow, same⟩ := ih
    have here : (⟨gap, token, text⟩ : Placement).Sound := ⟨blank, spelling, filled⟩
    refine ⟨placements ++ [⟨gap, token, text⟩], ⟨?_, ?_, ?_, ?_⟩, ?_⟩
    · rw [List.map_append, inRow.tokens]
      rfl
    · intro placement member
      rcases List.mem_append.1 member with before | last
      · exact inRow.sound placement before
      · rw [List.mem_singleton.1 last]
        exact here
    · intro front placement back whole some noGap
      rcases List.eq_nil_or_concat back with rfl | ⟨others, last, rfl⟩
      · obtain ⟨rfl, same⟩ := List.append_inj' whole rfl
        rw [← (List.cons.inj same).1] at noGap ⊢
        rw [inRow.tokens]
        refine apart ?_ noGap
        rintro rfl
        exact some (List.map_eq_nil_iff.1 inRow.tokens)
      · rw [List.concat_eq_append, ← List.cons_append, ← List.append_assoc] at whole
        exact inRow.apart front placement others (List.append_inj' whole rfl).1 some noGap
    · refine List.isChain_append.2 ⟨inRow.parts, List.isChain_singleton _, ?_⟩
      intro last final next head isLine
      obtain rfl : ⟨gap, token, text⟩ = next := by simpa using head
      refine breaks ?_
      rw [endsLine, ← inRow.tokens, List.getLast?_map, final]
      exact isLine
    · rw [row, List.flatMap_append, ← row, same]
      simp [Placement.chars]

theorem joins_of_gluesBefore {sheet : Sheet} (separator : sheet.style.catalogSeparator = '.')
    (last token : Token) (before : sheet.gluesBefore token last = true) :
    token.kind = .operator ∧ token.text ∈ joinTexts := by
  simp only [Sheet.gluesBefore, Sheet.isSeparator, separator, Bool.and_eq_true, Bool.or_eq_true,
    decide_eq_true_eq] at before
  refine ⟨before.1, ?_⟩
  rcases before.2 with ((point | point) | member) | bracket
  · rw [point]
    decide
  · rw [point]
    decide
  · have member : token.text ∈ ["::", "]", "\x7d"] := by simpa using member
    exact List.mem_cons_of_mem "." (List.mem_append_left ["["] member)
  · rw [bracket.1]
    decide

theorem joins_of_mayTouch {sheet : Sheet} (separator : sheet.style.catalogSeparator = '.')
    (front : List Token) (first second : Token)
    (touch : MayTouch sheet (front ++ [first]) second) : Joins first second := by
  rcases touch with isPunctuation | ⟨last, final, allowed⟩
  · exact .inr (.inl isPunctuation)
  · have same : first = last := by simpa using final
    subst same
    rw [endsUnary_snoc] at allowed
    rcases allowed with opening | comma | unary | after | before
    · left
      simp [Token.isGlue, opening]
    · left
      simp [Token.isGlue, comma]
    · left
      simp only [Sheet.isUnary, Bool.and_eq_true, decide_eq_true_eq] at unary
      refine Token.isGlue_of_operator first unary.1.1 ?_
      have member : first.text ∈ ["-", "+", "~"] := by simpa using unary.1.2
      exact List.mem_append_left [".", "::", "[", "\x7b"] member
    · left
      simp only [Sheet.gluesAfter, Sheet.isSeparator, separator, Bool.and_eq_true,
        Bool.or_eq_true, decide_eq_true_eq] at after
      refine Token.isGlue_of_operator first after.1 ?_
      rcases after.2 with (point | point) | member
      · rw [point]
        decide
      · rw [point]
        decide
      · have member : first.text ∈ ["::", "[", "\x7b"] := by simpa using member
        exact List.mem_append_right ["-", "+", "~", "."] member
    · exact .inr (.inr (joins_of_gluesBefore separator first second before))

/-- A hyphen with one operand, and another hyphen right behind it. -/
def HyphensMeet (placements : List Placement) : Prop :=
  ∃ front hyphen next back, placements = front ++ hyphen :: next :: back ∧ Meets hyphen next ∧
    Sheet.isUnary hyphen.token (front.map token).getLast? = true

section Rows

variable {sheet : Sheet} {tokens : List Token} {placements : List Placement}

theorem InRow.mayTouch (inRow : InRow sheet tokens placements) (front : List Placement)
    (first second : Placement) (back : List Placement)
    (whole : placements = front ++ first :: second :: back) (noGap : second.gap = []) :
    MayTouch sheet (front.map token ++ [first.token]) second.token := by
  have touch := inRow.apart (front ++ [first]) second back (by simp [whole]) (by simp) noGap
  rwa [List.map_append] at touch

theorem InRow.touches (inRow : InRow sheet tokens placements)
    (separator : sheet.style.catalogSeparator = '.') : placements.IsChain Touches := by
  refine List.isChain_iff_forall_rel_of_append_cons_cons.2 ?_
  intro first second front back whole noGap
  exact joins_of_mayTouch separator _ _ _ (inRow.mayTouch front first second back whole noGap)

theorem InRow.isUnary_of_meets (registry : Registry) (inRow : InRow sheet tokens placements)
    (separator : sheet.style.catalogSeparator = '.')
    (read : ∀ placement ∈ placements, ∃ behind, Token.ReadFrom registry placement.token behind)
    (front : List Placement) (hyphen next : Placement) (back : List Placement)
    (whole : placements = front ++ hyphen :: next :: back) (meets : Meets hyphen next) :
    Sheet.isUnary hyphen.token (front.map token).getLast? = true := by
  obtain ⟨noGap, named, head⟩ := meets
  have nextMember : next ∈ placements := by simp [whole]
  obtain ⟨_, nextRead⟩ := read next nextMember
  obtain ⟨_, hyphenRead⟩ := read hyphen (by simp [whole])
  have joinsNot (joins : next.token.kind.isPunctuation = true ∨
      next.token.kind = .operator ∧ next.token.text ∈ joinTexts) : False := by
    have joint := ((inRow.sound next nextMember).joins nextRead joins '-' head).1
    exact absurd joint (by decide)
  have marksNot (isPunctuation : hyphen.token.kind.isPunctuation = true) : False := by
    obtain ⟨c, text, sign⟩ := hyphenRead.punctuation isPunctuation
    rw [named] at text
    have same : '-' = c := (List.cons.inj text).1
    subst same
    simp at sign
  rcases inRow.mayTouch front hyphen next back whole noGap with
    isPunctuation | ⟨last, final, allowed⟩
  · exact (joinsNot (.inl isPunctuation)).elim
  · have same : hyphen.token = last := by simpa using final
    subst same
    rw [endsUnary_snoc] at allowed
    rcases allowed with opening | comma | unary | after | before
    · exact (marksNot (by rw [opening]; rfl)).elim
    · exact (marksNot (by rw [comma]; rfl)).elim
    · exact unary
    · rw [Sheet.gluesAfter, Sheet.isSeparator, named, separator] at after
      simp at after
    · exact (joinsNot (.inr (joins_of_gluesBefore separator _ _ before))).elim

theorem InRow.isChain_of_not_meet (registry : Registry) (inRow : InRow sheet tokens placements)
    (separator : sheet.style.catalogSeparator = '.')
    (read : ∀ placement ∈ placements, ∃ behind, Token.ReadFrom registry placement.token behind)
    (apart : ¬HyphensMeet placements) :
    placements.IsChain fun first second => ¬Meets first second := by
  refine List.isChain_iff_forall_rel_of_append_cons_cons.2 ?_
  intro hyphen next front back whole meets
  refine apart ?_
  exact ⟨front, hyphen, next, back, whole, meets,
    inRow.isUnary_of_meets registry separator read front hyphen next back whole meets⟩

end Rows

def below : List Placement → List Placement
  | [] => []
  | first :: rest => { first with gap := '\n' :: '\n' :: first.gap } :: rest

def lines : List (List Placement) → List Placement
  | [] => []
  | first :: rest => first ++ rest.flatMap below

theorem row_append (first second : List Placement) :
    row (first ++ second) = row first ++ row second := by
  simp [row]

theorem row_below (placements : List Placement) (some : placements ≠ []) :
    row (below placements) = ['\n', '\n'] ++ row placements := by
  obtain ⟨first, rest, rfl⟩ := List.exists_cons_of_ne_nil some
  simp [below]

theorem row_lines (rows : List (List Placement)) (full : ∀ placements ∈ rows, placements ≠ []) :
    row (lines rows) = ['\n', '\n'].intercalate (rows.map row) := by
  cases rows with
  | nil => rfl
  | cons first rest =>
    induction rest generalizing first with
    | nil => simp [lines]
    | cons second others ih =>
      have onward := ih second fun placements member =>
        full placements (List.mem_cons_of_mem _ member)
      rw [List.map_cons, List.map_cons, List.intercalate_cons_cons, ← List.map_cons, ← onward,
        lines, lines, List.flatMap_cons, row_append, row_append, row_append,
        row_below second (full second (by simp))]
      simp

theorem map_token_below (placements : List Placement) :
    (below placements).map token = placements.map token := by
  cases placements <;> rfl

theorem map_token_lines (rows : List (List Placement)) :
    (lines rows).map token = (rows.map (List.map token)).flatten := by
  cases rows with
  | nil => rfl
  | cons first rest =>
    rw [lines, List.map_append, List.map_cons, List.flatten_cons, List.map_flatMap]
    congr 1
    rw [← List.flatMap_def]
    exact List.flatMap_congr fun placements _ => map_token_below placements

theorem sound_lines (rows : List (List Placement))
    (sound : ∀ placements ∈ rows, ∀ placement ∈ placements, placement.Sound)
    (placement : Placement) (member : placement ∈ lines rows) : placement.Sound := by
  have lower (placements : List Placement) (inRows : placements ∈ rows)
      (inside : placement ∈ below placements) : placement.Sound := by
    cases placements with
    | nil => simp [below] at inside
    | cons first rest =>
      rcases List.mem_cons.1 inside with rfl | later
      · have upper := sound _ inRows first (by simp)
        refine ⟨?_, upper.spelling, upper.filled⟩
        intro c inGap
        simp only [List.mem_cons] at inGap
        rcases inGap with newline | newline | further
        · exact .inr newline
        · exact .inr newline
        · exact upper.blank c further
      · exact sound _ inRows placement (List.mem_cons_of_mem _ later)
  cases rows with
  | nil => simp [lines] at member
  | cons first rest =>
    rcases List.mem_append.1 member with here | later
    · exact sound first (by simp) placement here
    · obtain ⟨placements, inRest, inside⟩ := List.mem_flatMap.1 later
      exact lower placements (List.mem_cons_of_mem _ inRest) inside

/-- What always holds across a line break holds in all rows if it holds in each of them. -/
theorem isChain_lines (related : Placement → Placement → Prop) (rows : List (List Placement))
    (gapless : ∀ first second gap, related { first with gap := gap } second ↔ related first second)
    (free : ∀ first second, second.gap.head? = some '\n' → related first second) :
    (lines rows).IsChain related ↔ ∀ placements ∈ rows, placements.IsChain related := by
  have lower (placements : List Placement) :
      (below placements).IsChain related ↔ placements.IsChain related := by
    match placements with
    | [] => exact Iff.rfl
    | [placement] => simp [below]
    | first :: second :: rest => simp [below, gapless]
  have first (others : List (List Placement)) :
      ∀ second ∈ (others.flatMap below).head?, second.gap.head? = some '\n' := by
    induction others with
    | nil => simp
    | cons placements others ih =>
      cases placements with
      | nil => exact ih
      | cons placement rest => simp [below]
  have across (front : List Placement) (others : List (List Placement)) :
      ∀ last ∈ front.getLast?, ∀ second ∈ (others.flatMap below).head?, related last second :=
    fun last _ second head => free last second (first others second head)
  have later (others : List (List Placement)) :
      (others.flatMap below).IsChain related ↔
        ∀ placements ∈ others, placements.IsChain related := by
    induction others with
    | nil => simp
    | cons placements others ih =>
      rw [List.flatMap_cons, List.isChain_append, lower, ih, List.forall_mem_cons]
      exact and_congr_right fun _ => and_iff_left (across (below placements) others)
  cases rows with
  | nil => simp [lines]
  | cons placements others =>
    rw [lines, List.isChain_append, later, List.forall_mem_cons]
    exact and_congr_right fun _ => and_iff_left (across placements others)

end SqlLayout.Layout.Placement
