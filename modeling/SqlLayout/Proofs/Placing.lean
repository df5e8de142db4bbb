import SqlLayout.Proofs.Gluing

/-! Tokens in their places. A row of placements is a text with its tokens, the blanks
between them and how each of them is written. Whatever stands in a row is read again
without a comment, as long as no two hyphens meet; and up to the first two that do. -/
namespace SqlLayout.Layout

open Keyword Token

structure Placement where
  gap : List Char
  token : Token
  text : String

def joinTexts : List String :=
  [".", "::", "]", "\x7d", "["]

def Joins (first second : Token) : Prop :=
  first.isGlue = true ∨ second.kind.isPunctuation = true ∨
    second.kind = .operator ∧ second.text ∈ joinTexts

namespace Placement

def chars (placement : Placement) : List Char :=
  placement.gap ++ placement.text.toList

def row (placements : List Placement) : List Char :=
  placements.flatMap chars

structure Sound (placement : Placement) : Prop where
  blank : ∀ c ∈ placement.gap, c = ' ' ∨ c = '\n'
  spelling : Spelling placement.token placement.text
  filled : placement.text ≠ ""

def Touches (first second : Placement) : Prop :=
  second.gap = [] → Joins first.token second.token

def Meets (first second : Placement) : Prop :=
  second.gap = [] ∧ first.token.text = "-" ∧ second.text.toList.head? = some '-'

/-- Behind a line comment a new line starts. -/
def Parts (first second : Placement) : Prop :=
  first.token.isLineComment = true → second.gap.head? = some '\n'

@[simp] theorem row_nil : row [] = [] :=
  rfl

@[simp] theorem row_cons (placement : Placement) (rest : List Placement) :
    row (placement :: rest) = placement.gap ++ (placement.text.toList ++ row rest) := by
  simp [row, chars]

/-- A row of tokens that were all read before, none of them a comment. -/
structure Written (registry : Registry) (placements : List Placement) : Prop where
  sound : ∀ placement ∈ placements, placement.Sound
  code : ∀ placement ∈ placements,
    placement.token.kind ≠ .blank ∧ placement.token.kind ≠ .comment
  single : ∀ placement ∈ placements, placement.token.kind.isWordLike = true →
    placement.token.text.toList.count '$' ≤ 1
  read : ∀ placement ∈ placements, ∃ behind, ReadFrom registry placement.token behind
  -- Only the last token may have been the last of all.
  closed : placements.Pairwise fun first _ =>
    ∃ behind, behind ≠ [] ∧ ReadFrom registry first.token behind
  brackets : placements.Pairwise fun first second =>
    first.token.text = "[" → ']' ∉ second.token.text.toList.dropLast
  touches : placements.IsChain Touches

theorem Written.tail {registry : Registry} {placement : Placement} {rest : List Placement}
    (written : Written registry (placement :: rest)) : Written registry rest where
  sound := fun other member => written.sound other (List.mem_cons_of_mem _ member)
  code := fun other member => written.code other (List.mem_cons_of_mem _ member)
  single := fun other member => written.single other (List.mem_cons_of_mem _ member)
  read := fun other member => written.read other (List.mem_cons_of_mem _ member)
  closed := written.closed.tail
  brackets := written.brackets.tail
  touches := written.touches.tail

theorem head_cases {placement : Placement} {rest : List Placement} (sound : placement.Sound)
    (c : Char) (head : (row (placement :: rest)).head? = some c) :
    c = ' ' ∨ c = '\n' ∨
      placement.gap = [] ∧ placement.text.toList.head? = some c := by
  rw [row_cons] at head
  cases gap : placement.gap with
  | nil =>
    rw [gap, List.nil_append] at head
    refine .inr (.inr ⟨rfl, ?_⟩)
    cases text : placement.text.toList with
    | nil => exact absurd (String.toList_eq_nil_iff.1 text) sound.filled
    | cons first others =>
      rw [text] at head
      exact head
  | cons first others =>
    rw [gap] at head
    have blank := sound.blank first (by simp [gap])
    rw [Option.some.inj head] at blank
    rcases blank with space | newline
    · exact .inl space
    · exact .inr (.inl newline)

theorem Sound.joins {registry : Registry} {placement : Placement} {behind : List Char}
    (sound : placement.Sound) (read : ReadFrom registry placement.token behind)
    (joins : placement.token.kind.isPunctuation = true ∨
      placement.token.kind = .operator ∧ placement.token.text ∈ joinTexts)
    (c : Char) (head : placement.text.toList.head? = some c) :
    isJoint c = true ∧ (c = '[' → placement.token.text = "[" ∧ placement.text = "[") := by
  have same : placement.text = placement.token.text := by
    have spelling := sound.spelling
    rwa [Spelling, if_neg] at spelling
    rcases joins with isPunctuation | ⟨isOperator, -⟩
    · cases kind : placement.token.kind <;>
        simp [kind, Kind.isPunctuation] at isPunctuation <;> simp [Kind.isWordLike]
    · simp [isOperator, Kind.isWordLike]
  rw [same] at head ⊢
  rcases joins with isPunctuation | ⟨-, member⟩
  · obtain ⟨sign, text, cases⟩ := read.punctuation isPunctuation
    rw [text] at head
    rw [← Option.some.inj head]
    rcases cases with same | same | same | same <;> rw [same.1] <;>
      exact ⟨by decide, fun isBracket => absurd isBracket (by decide)⟩
  · have shape : joinTexts.all (fun text => text.toList.head?.all fun c =>
        isJoint c && (c ≠ '[' || text = "[")) = true := by decide
    have this := List.all_eq_true.1 shape _ member
    rw [head] at this
    simp only [Option.all_some, Bool.and_eq_true, Bool.or_eq_true, decide_eq_true_eq] at this
    refine ⟨this.1, fun isBracket => ?_⟩
    rcases this.2 with other | named
    · exact absurd isBracket other
    · exact ⟨named, named⟩

theorem Sound.hides {registry : Registry} {placement : Placement} {behind : List Char}
    (phrases : registry.compounds.all isPlainPhrase = true) (sound : placement.Sound)
    (read : ReadFrom registry placement.token behind)
    (bare : ']' ∉ placement.token.text.toList.dropLast) :
    ']' ∉ placement.text.toList.dropLast := by
  have spelling := sound.spelling
  by_cases wordLike : placement.token.kind.isWordLike = true
  · obtain ⟨wordish, -⟩ := read.spelling_wordish phrases wordLike _ spelling
    intro inside
    exact absurd (wordish ']' (List.dropLast_subset _ inside)) (by decide)
  · rw [Spelling, if_neg wordLike] at spelling
    rwa [spelling]

/-- Behind a bracket, the next closing one ends a token, so what follows it is a row again. -/
theorem landsBehind_row {ends : List Char → Prop} (placements : List Placement)
    (sound : ∀ placement ∈ placements, placement.Sound)
    (shown : ∀ placement ∈ placements, ']' ∉ placement.text.toList.dropLast)
    (clear : ∀ rest, rest <:+ placements → Clear ends false (row rest)) :
    LandsBehind ends (row placements) := by
  induction placements with
  | nil =>
    intro inside
    simp at inside
  | cons placement rest ih =>
    have onward := ih (fun other member => sound other (List.mem_cons_of_mem _ member))
      (fun other member => shown other (List.mem_cons_of_mem _ member))
      (fun other suffix => clear other (List.suffix_cons_iff.2 (.inr suffix)))
    have inGap : ∀ c ∈ placement.gap, c ≠ ']' := by
      intro c member
      rcases (sound placement (by simp)).blank c member with rfl | rfl <;> decide
    rw [row_cons]
    refine .of_other placement.gap inGap ?_
    by_cases inside : ']' ∈ placement.text.toList
    · -- The bracket is the last character of the token.
      obtain ⟨front, last, text⟩ : ∃ front last, placement.text.toList = front ++ [last] :=
        ⟨_, _, (List.dropLast_append_getLast (List.ne_nil_of_mem inside)).symm⟩
      have hidden := shown placement (by simp)
      rw [text, List.dropLast_concat] at hidden
      have isClose : last = ']' := by
        rw [text] at inside
        rcases List.mem_append.1 inside with before | here
        · exact absurd before hidden
        · exact (List.mem_singleton.1 here).symm
      rw [text, isClose, List.append_assoc]
      refine .of_closing front ?_ (clear rest (List.suffix_cons placement rest))
      rintro c before rfl
      exact hidden before
    · refine .of_other placement.text.toList ?_ onward
      rintro c before rfl
      exact inside before

section Rows

variable {registry : Registry} {ends : List Char → Prop} {placement : Placement}
  {rest : List Placement}

theorem Written.joint (written : Written registry (placement :: rest))
    (loose : placement.token.isGlue = false) : JointAhead (row rest) := by
  intro c head
  cases rest with
  | nil => simp at head
  | cons next others =>
    have sound := written.sound next (by simp)
    rcases head_cases sound c head with rfl | rfl | ⟨noGap, first⟩
    · decide
    · decide
    · obtain ⟨behind, read⟩ := written.read next (by simp)
      have joins := (List.isChain_cons_cons.1 written.touches).1 noGap
      rw [Joins, loose] at joins
      exact (sound.joins read (joins.resolve_left (by simp)) c first).1

/-- A bracket right behind a token is a token of its own. -/
theorem Written.opens (written : Written registry (placement :: rest))
    (loose : placement.token.isGlue = false) (body : List Char) (starts : row rest = '[' :: body) :
    ∃ bracket others, rest = bracket :: others ∧ bracket.token.text = "[" ∧ body = row others := by
  cases rest with
  | nil => simp at starts
  | cons next others =>
    have sound := written.sound next (by simp)
    have head : (row (next :: others)).head? = some '[' := by rw [starts]; rfl
    rcases head_cases sound '[' head with space | newline | ⟨noGap, first⟩
    · exact absurd space (by decide)
    · exact absurd newline (by decide)
    · obtain ⟨behind, read⟩ := written.read next (by simp)
      have joins := (List.isChain_cons_cons.1 written.touches).1 noGap
      rw [Joins, loose] at joins
      obtain ⟨named, text⟩ := (sound.joins read (joins.resolve_left (by simp)) '[' first).2 rfl
      refine ⟨next, others, rfl, named, ?_⟩
      rw [row_cons, noGap, text] at starts
      exact (List.cons.inj starts).2.symm

theorem Written.hyphen (written : Written registry (placement :: rest))
    (apart : (placement :: rest.take 1).IsChain fun first second => ¬Meets first second)
    (isHyphen : placement.token.text = "-") : (row rest).head? ≠ some '-' := by
  intro head
  cases rest with
  | nil => simp at head
  | cons next others =>
    rcases head_cases (written.sound next (by simp)) '-' head with space | newline | ⟨noGap, first⟩
    · exact absurd space (by decide)
    · exact absurd newline (by decide)
    · exact (List.isChain_cons_cons.1 apart).1 ⟨noGap, isHyphen, first⟩

theorem Written.lands (phrases : registry.compounds.all isPlainPhrase = true)
    (written : Written registry (placement :: rest)) (isBracket : placement.token.text = "[")
    (clear : ∀ others, others <:+ rest → Clear ends false (row others)) :
    LandsBehind ends (row rest) := by
  refine landsBehind_row rest written.tail.sound ?_ clear
  intro other member
  obtain ⟨behind, read⟩ := written.tail.read other member
  refine (written.tail.sound other member).hides phrases read ?_
  exact (List.pairwise_cons.1 written.brackets).1 other member isBracket

theorem Written.clear_cons (well : EndsWell ends)
    (phrases : registry.compounds.all isPlainPhrase = true)
    (written : Written registry (placement :: rest))
    (apart : (placement :: rest.take 1).IsChain fun first second => ¬Meets first second)
    (clear : Clear ends false (row rest))
    (lands : placement.token.text = "[" → LandsBehind ends (row rest))
    (next : ∀ bracket others, rest = bracket :: others → bracket.token.text = "[" →
      LandsBehind ends (row others)) :
    Clear ends false (row (placement :: rest)) := by
  have sound := written.sound placement (by simp)
  obtain ⟨visible, code⟩ := written.code placement (by simp)
  obtain ⟨behind, read, closed⟩ : ∃ behind, ReadFrom registry placement.token behind ∧
      (behind = [] → row rest = []) := by
    cases rest with
    | nil =>
      obtain ⟨behind, read⟩ := written.read placement (by simp)
      exact ⟨behind, read, fun _ => rfl⟩
    | cons other others =>
      obtain ⟨behind, more, read⟩ := (List.pairwise_cons.1 written.closed).1 other (by simp)
      exact ⟨behind, read, fun nothing => absurd nothing more⟩
  have follows : Follows ends placement.token behind (row rest) :=
    { clear := clear
      joint := written.joint
      opens := by
        intro loose body starts
        obtain ⟨bracket, others, whole, isBracket, rfl⟩ := written.opens loose body starts
        exact next bracket others whole isBracket
      hyphen := written.hyphen apart
      bracket := lands
      closed := closed }
  have here := read.clear well phrases visible code (written.single placement (by simp))
    placement.text sound.spelling follows
  rw [row_cons]
  refine Clear.of_signs placement.gap ?_ here
  intro c member
  rcases sound.blank c member with rfl | rfl <;> decide

/-- A row without two hyphens that meet is clear, and so is all that follows a token of it. -/
theorem Written.clear (phrases : registry.compounds.all isPlainPhrase = true)
    (placements : List Placement) (written : Written registry placements)
    (apart : placements.IsChain fun first second => ¬Meets first second)
    (others : List Placement) (behind : others <:+ placements) :
    Clear (· = []) false (row others) := by
  have well : EndsWell (· = []) := fun _ nothing => .inl nothing
  induction placements generalizing others with
  | nil =>
    rw [List.suffix_nil.1 behind]
    exact .ends rfl
  | cons placement rest ih =>
    have onward := ih written.tail apart.tail
    rcases List.suffix_cons_iff.1 behind with rfl | later
    · refine written.clear_cons well phrases ?_ (onward rest (List.suffix_refl rest)) ?_ ?_
      · cases rest with
        | nil => simp
        | cons next further =>
          simpa using (List.isChain_cons_cons.1 apart).1
      · intro isBracket
        exact written.lands phrases isBracket onward
      · rintro bracket further rfl isBracket
        exact written.tail.lands phrases isBracket fun others later =>
          onward others (List.suffix_cons_iff.2 (.inr later))
    · exact onward others later

/-- A row is clear up to the first two hyphens that meet, if there is no bracket in it. -/
theorem Written.clear_front (phrases : registry.compounds.all isPlainPhrase = true)
    (front : List Placement) (hyphen : Placement) (back : List Placement)
    (written : Written registry (front ++ hyphen :: back))
    (plain : ∀ placement ∈ front ++ hyphen :: back, placement.token.text ≠ "[")
    (apart : (front ++ [hyphen]).IsChain fun first second => ¬Meets first second)
    (clear : Clear Cursor.AtHyphens false (row (hyphen :: back))) :
    Clear Cursor.AtHyphens false (row (front ++ hyphen :: back)) := by
  have well : EndsWell Cursor.AtHyphens := fun _ hyphens => .inr hyphens
  induction front with
  | nil => exact clear
  | cons placement rest ih =>
    have onward := ih written.tail
      (fun other member => plain other (List.mem_cons_of_mem _ member)) apart.tail
    refine written.clear_cons well phrases ?_ onward ?_ ?_
    · cases rest with
      | nil => exact apart
      | cons next further =>
        have first := (List.isChain_cons_cons.1 apart).1
        simpa using first
    · intro isBracket
      exact absurd isBracket (plain placement (by simp))
    · intro bracket further whole isBracket
      exact absurd isBracket (plain bracket (List.mem_cons_of_mem _ (whole ▸ by simp)))

end Rows

theorem exists_first_meeting (placements : List Placement)
    (meeting : ¬placements.IsChain fun first second => ¬Meets first second) :
    ∃ front hyphen next back, placements = front ++ hyphen :: next :: back ∧
      Meets hyphen next ∧ (front ++ [hyphen]).IsChain fun first second => ¬Meets first second := by
  induction placements with
  | nil => exact absurd .nil meeting
  | cons placement rest ih =>
    cases rest with
    | nil => exact absurd (.singleton placement) meeting
    | cons next others =>
      by_cases here : Meets placement next
      · exact ⟨[], placement, next, others, rfl, here, .singleton placement⟩
      · have later : ¬(next :: others).IsChain fun first second => ¬Meets first second :=
          fun apart => meeting (List.isChain_cons_cons.2 ⟨here, apart⟩)
        obtain ⟨front, hyphen, second, back, whole, meets, apart⟩ := ih later
        refine ⟨placement :: front, hyphen, second, back, by rw [whole]; rfl, meets, ?_⟩
        refine List.isChain_cons.2 ⟨?_, apart⟩
        intro first head
        have same : first = next := by
          cases front with
          | nil =>
            rw [List.nil_append, List.cons.injEq] at whole
            rw [whole.1]
            simpa using head.symm
          | cons other front =>
            rw [List.cons_append, List.cons.injEq] at whole
            rw [whole.1]
            simpa using head.symm
        rwa [same]

theorem Written.behind {registry : Registry} (front : List Placement) {rest : List Placement}
    (written : Written registry (front ++ rest)) : Written registry rest := by
  induction front with
  | nil => exact written
  | cons placement front ih => exact ih written.tail

theorem Written.atHyphens {registry : Registry} {hyphen next : Placement} {back : List Placement}
    (phrases : registry.compounds.all isPlainPhrase = true)
    (written : Written registry (hyphen :: next :: back)) (meets : Meets hyphen next) :
    Clear Cursor.AtHyphens false (row (hyphen :: next :: back)) := by
  obtain ⟨noGap, named, head⟩ := meets
  have sound := written.sound hyphen (by simp)
  have text : hyphen.text = "-" := by
    have spelling := sound.spelling
    rwa [Spelling, if_neg, named] at spelling
    intro wordLike
    obtain ⟨behind, read⟩ := written.read hyphen (by simp)
    exact absurd ((read.wordish phrases wordLike).1 '-' (by rw [named]; decide)) (by decide)
  obtain ⟨others, start⟩ := List.head?_eq_some_iff.1 head
  rw [row_cons, row_cons, noGap, text, start]
  refine Clear.of_signs hyphen.gap ?_ (.ends ⟨others ++ row back, rfl⟩)
  intro c member
  rcases sound.blank c member with rfl | rfl <;> decide

theorem Written.no_comment {registry : Registry} {placements : List Placement}
    (phrases : registry.compounds.all isPlainPhrase = true)
    (written : Written registry placements)
    (apart : placements.IsChain fun first second => ¬Meets first second) (text : String)
    (same : text.toList = row placements) (token : Token)
    (member : token ∈ (lex registry text).tokens) : token.isComment = false := by
  refine Cursor.no_comment_of_clear registry (Cursor.ofSource text) ?_ token member
  have clear := written.clear phrases placements apart placements (List.suffix_refl placements)
  rwa [← same] at clear

theorem Written.exists_comment {registry : Registry} {placements : List Placement}
    (phrases : registry.compounds.all isPlainPhrase = true)
    (written : Written registry placements)
    (plain : ∀ placement ∈ placements, placement.token.text ≠ "[")
    (meeting : ¬placements.IsChain fun first second => ¬Meets first second) (text : String)
    (same : text.toList = row placements) (relexed : List Token)
    (lexed : tokens? registry text = .ok relexed) :
    ∃ token ∈ relexed, token.isComment = true := by
  obtain ⟨finished, rfl⟩ := (tokens?_eq_ok_iff registry text relexed).1 lexed
  obtain ⟨front, hyphen, next, back, rfl, meets, apart⟩ := exists_first_meeting placements meeting
  refine Cursor.comment_of_clear registry (Cursor.ofSource text) ?_ finished
  have clear := written.clear_front phrases front hyphen (next :: back) plain apart
    ((written.behind front).atHyphens phrases meets)
  rwa [← same] at clear

end Placement

end SqlLayout.Layout
