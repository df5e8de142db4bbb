import Mathlib.Algebra.GroupWithZero.Nat
import Mathlib.Algebra.Order.BigOperators.Group.List
import Mathlib.Algebra.Order.Group.Nat
import SqlLayout.Proofs.Completeness
import SqlLayout.Proofs.Parting
import SqlLayout.Proofs.Relocating

/-! The outline of a text: its tokens without the blanks between them and without their places,
and of each comment whether it begins a line. The text of a formatted source is made from its
outline alone, so sources with the same outline come out the same however they were laid out.

Tokens of an outline are numbered from the front. Where they stand in the source is a rising
function of their numbers, and along such a function they can be moved. -/
namespace SqlLayout

/-- A token without its place. Of a comment it is known whether it begins a line. -/
structure Shape where
  kind : Token.Kind
  text : String
  contents : String
  beginsLine : Bool
  deriving DecidableEq, Repr

namespace Token

/-- What is not blank in a text, of which the given token was the last one before. -/
def outline (previous : Option Token) : List Token → List Shape
  | [] => []
  | token :: rest =>
    let beginsLine := previous.all fun before =>
      before.isBlank && before.text.toList.contains '\n'
    let others := outline (some token) rest
    if token.isBlank then others
    else ⟨token.kind, token.text, token.contents, token.isComment && beginsLine⟩ :: others

def shape (lineStarts : List Nat) (token : Token) : Shape :=
  ⟨token.kind, token.text, token.contents, token.isComment && lineStarts.contains token.start⟩

end Token

namespace Shape

def token (start : Nat) (shape : Shape) : Token :=
  ⟨shape.kind, shape.text, start, shape.contents⟩

def numbered (shapes : List Shape) : List Token :=
  shapes.mapIdx fun number shape => shape.token number

def lineStarts (shapes : List Shape) : List Nat :=
  (List.range shapes.length).filter fun number => shapes[number]?.any Shape.beginsLine

theorem contains_lineStarts (shapes : List Shape) (number : Nat)
    (inside : number < shapes.length) :
    (lineStarts shapes).contains number = shapes[number].beginsLine := by
  rw [Bool.eq_iff_iff, List.contains_iff_mem, lineStarts, List.mem_filter, List.mem_range,
    List.getElem?_eq_getElem inside]
  simp [inside]

end Shape

def Formatter.formatOutline (formatter : Formatter) (shapes : List Shape) : String :=
  let texts := (Token.splitStatements (Shape.numbered shapes)).map
    (formatter.formatStatement (Shape.lineStarts shapes))
  "\n\n".intercalate (texts.filter (· ≠ ""))

namespace Token

open SqlLayout.Tree (Ascending)

theorem mem_of_mem_commentLineStarts (previous : Option Token) (tokens : List Token) (place : Nat)
    (member : place ∈ commentLineStarts previous tokens) :
    ∃ token ∈ tokens, token.start = place := by
  induction tokens generalizing previous with
  | nil => simp [commentLineStarts] at member
  | cons token rest ih =>
    rw [commentLineStarts] at member
    split at member
    · rcases List.mem_cons.1 member with rfl | later
      · exact ⟨token, by simp, rfl⟩
      · obtain ⟨other, inside, same⟩ := ih (some token) later
        exact ⟨other, List.mem_cons_of_mem token inside, same⟩
    · obtain ⟨other, inside, same⟩ := ih (some token) member
      exact ⟨other, List.mem_cons_of_mem token inside, same⟩

theorem contains_commentLineStarts (previous : Option Token) (before after : List Token)
    (token : Token) (ascending : Ascending (before ++ token :: after)) :
    (commentLineStarts previous (before ++ token :: after)).contains token.start =
      (token.isComment && (before.getLast?.or previous).all fun last =>
        last.isBlank && last.text.toList.contains '\n') := by
  induction before generalizing previous with
  | nil =>
    obtain ⟨front, -⟩ := List.pairwise_cons.1 ascending
    have fresh : token.start ∉ commentLineStarts (some token) after := by
      intro member
      obtain ⟨other, inside, same⟩ := mem_of_mem_commentLineStarts (some token) after _ member
      exact absurd same (Nat.ne_of_gt (front other inside))
    rw [List.nil_append, commentLineStarts]
    split <;> rename_i begins <;> simp_all
  | cons first rest ih =>
    obtain ⟨front, behind⟩ := List.pairwise_cons.1 ascending
    have apart : token.start ≠ first.start := Nat.ne_of_gt (front token (by simp))
    have onward := ih (some first) behind
    have last : (first :: rest).getLast?.or previous = rest.getLast?.or (some first) := by
      cases final : rest.getLast? with
      | none =>
        obtain rfl := List.getLast?_eq_none_iff.1 final
        rfl
      | some other => rw [List.getLast?_cons, final]; rfl
    rw [last, ← onward, List.cons_append, commentLineStarts]
    split <;> simp [apart]

/-- Since no two tokens start at one place, the outline can be read off the places. -/
theorem outline_eq (previous : Option Token) (tokens : List Token) (ascending : Ascending tokens) :
    outline previous tokens =
      (visible tokens).map (shape (commentLineStarts previous tokens)) := by
  induction tokens generalizing previous with
  | nil => rfl
  | cons token rest ih =>
    obtain ⟨front, behind⟩ := List.pairwise_cons.1 ascending
    have onward := ih (some token) behind
    have fresh : token.start ∉ commentLineStarts (some token) rest := by
      intro member
      obtain ⟨other, inside, same⟩ := mem_of_mem_commentLineStarts (some token) rest _ member
      exact absurd same (Nat.ne_of_gt (front other inside))
    -- One more place makes no difference to the tokens behind it.
    have others : (visible rest).map (shape (commentLineStarts previous (token :: rest))) =
        (visible rest).map (shape (commentLineStarts (some token) rest)) := by
      refine List.map_congr_left fun other member => ?_
      have apart : other.start ≠ token.start :=
        Nat.ne_of_gt (front other (List.mem_filter.1 member).1)
      rw [shape, shape, commentLineStarts]
      split <;> simp [apart]
    rw [outline, onward, ← others]
    by_cases blank : token.isBlank = true
    · have dropped : visible (token :: rest) = visible rest := by simp [visible, blank]
      rw [dropped, if_pos blank]
    · have kept : visible (token :: rest) = token :: visible rest := by simp [visible, blank]
      rw [kept, if_neg blank, List.map_cons]
      congr 1
      rw [shape, commentLineStarts]
      split <;> rename_i begins <;> simp_all

end Token

def placeOf (starts : List Nat) (number : Nat) : Nat :=
  starts[number]?.getD (starts.sum + number + 1)

theorem strictMono_placeOf (starts : List Nat) (rising : starts.Pairwise (· < ·)) :
    StrictMono (placeOf starts) := by
  refine strictMono_nat_of_lt_succ fun number => ?_
  rw [placeOf, placeOf]
  by_cases next : number + 1 < starts.length
  · have here : number < starts.length := by omega
    rw [List.getElem?_eq_getElem here, List.getElem?_eq_getElem next]
    exact List.pairwise_iff_getElem.1 rising number (number + 1) here next (by omega)
  · rw [List.getElem?_eq_none (by omega : starts.length ≤ number + 1), Option.getD_none]
    by_cases here : number < starts.length
    · have bound := List.le_sum_of_mem (List.getElem_mem here)
      rw [List.getElem?_eq_getElem here, Option.getD_some]
      omega
    · rw [List.getElem?_eq_none (by omega), Option.getD_none]
      omega

namespace Formatter

open Layout SqlLayout.Tree Token

theorem formatStatement_nil (formatter : Formatter) (lines : List Nat) :
    formatter.formatStatement lines [] = "" := rfl

theorem formatStatement_visible (formatter : Formatter) (lines : List Nat)
    (tokens statement : List Token) (member : statement ∈ splitStatements tokens) :
    formatter.formatStatement lines (visible statement) =
      formatter.formatStatement lines statement := by
  obtain ⟨body, plain, parts, -⟩ := exists_body tokens statement member
  have empty : (visible statement).all (fun token => token.isBlank || token.kind = .semicolon) =
      statement.all fun token => token.isBlank || token.kind = .semicolon := by
    rw [visible, List.all_filter]
    refine congrArg (List.all statement) (funext fun token => ?_)
    cases token.isBlank <;> rfl
  have counted : countedTokens (visible statement) = countedTokens statement := by
    rw [countedTokens, countedTokens, visible, List.filter_filter]
    simp only [Bool.and_self]
  have ends : terminator (visible statement) = terminator statement := by
    cases found : terminator statement with
    | some token =>
      have kind := (kind_of_terminator statement token found).1
      have last : visible [token] = [token] := by simp [visible, isBlank, kind]
      rw [parts, found, Option.toList_some, visible_append, last, terminator,
        List.getLast?_append, List.getLast?_singleton, Option.some_or]
      simp [Option.filter, kind]
    | none =>
      rw [parts, found, Option.toList_none, List.append_nil]
      refine Option.eq_none_iff_forall_ne_some.2 fun token last => ?_
      obtain ⟨kind, inside⟩ := kind_of_terminator (visible body) token last
      exact plain token (List.mem_filter.1 inside).1 kind
  rw [terminator, terminator] at ends
  simp only [formatStatement, empty, ends, Tree.walk, counted]

theorem texts_visible (formatter : Formatter) (lines : List Nat) (tokens : List Token) :
    ((splitStatements (visible tokens)).map (formatter.formatStatement lines)).filter (· ≠ "") =
      ((splitStatements tokens).map (formatter.formatStatement lines)).filter (· ≠ "") := by
  have same : (splitStatements tokens).map (formatter.formatStatement lines ∘ visible) =
      (splitStatements tokens).map (formatter.formatStatement lines) :=
    List.map_congr_left fun statement member =>
      formatter.formatStatement_visible lines tokens statement member
  rw [splitStatements_visible, ← same, ← List.map_map]
  generalize (splitStatements tokens).map visible = statements
  rw [List.filter_map, List.filter_map, List.filter_filter]
  refine congrArg (List.map _) (List.filter_congr fun statement _ => ?_)
  by_cases nothing : statement = []
  · simp [nothing, formatStatement_nil]
  · simp [nothing]

theorem formatTokens_eq_formatOutline (formatter : Formatter) (tokens : List Token)
    (ascending : Ascending tokens) :
    formatter.formatTokens tokens = formatter.formatOutline (outline none tokens) := by
  have shapes := outline_eq none tokens ascending
  have rising : ((visible tokens).map Token.start).Pairwise (· < ·) :=
    List.pairwise_map.2 (List.Pairwise.filter _ ascending)
  rw [formatTokens, formatOutline]
  generalize commentLineStarts none tokens = lines at shapes ⊢
  rw [← texts_visible]
  generalize visible tokens = shown at shapes rising ⊢
  rw [shapes]
  clear shapes
  let place := placeOf (shown.map Token.start)
  have placed (number : Nat) (inside : number < shown.length) :
      place number = shown[number].start := by
    simp [place, placeOf, inside]
  have moved : (Shape.numbered (shown.map (shape lines))).map (Token.moved place) = shown := by
    refine List.ext_getElem (by simp [Shape.numbered]) fun number _ inside => ?_
    simp [Shape.numbered, Shape.token, shape, Token.moved, placed number inside]
  have texts : (splitStatements shown).map (formatter.formatStatement lines) =
      (splitStatements (Shape.numbered (shown.map (shape lines)))).map
        (formatter.formatStatement (Shape.lineStarts (shown.map (shape lines)))) := by
    have kinds (token : Token) : (token.moved place).kind = token.kind := rfl
    conv_lhs => rw [← moved]
    rw [splitStatements_map kinds, List.map_map]
    refine List.map_congr_left fun statement member => ?_
    refine formatter.formatStatement_recast
      (renaming_moved formatter.style (strictMono_placeOf _ rising)) statement ?_
    intro token inside comment
    have among := mem_of_mem_splitStatements _ statement member token inside
    obtain ⟨number, bound, rfl⟩ := List.getElem_of_mem among
    have bound : number < shown.length := by simpa [Shape.numbered] using bound
    have entry : (Shape.numbered (shown.map (shape lines)))[number] =
        (shape lines shown[number]).token number := by
      simp [Shape.numbered]
    rw [entry] at comment ⊢
    have kind : shown[number].isComment = true := comment
    have begins := Shape.contains_lineStarts (shown.map (shape lines)) number (by simpa)
    have there : (((shape lines shown[number]).token number).moved place).start =
      shown[number].start := placed number bound
    rw [there, Shape.token, begins, List.getElem_map, shape, kind, Bool.true_and]
  rw [texts]

/-- How a source is laid out does not matter: sources with the same outline come to the same
text. -/
theorem format_eq_of_outline (formatter : Formatter) (first second : String)
    (tokens others : List Token) (read : tokens? formatter.registry first = .ok tokens)
    (reread : tokens? formatter.registry second = .ok others)
    (same : outline none tokens = outline none others) :
    ∃ text, formatter.format first = .ok text ∧ formatter.format second = .ok text := by
  have once := ascending_of_tiles (tiles_of_tokens? formatter.registry first tokens read)
  have again := ascending_of_tiles (tiles_of_tokens? formatter.registry second others reread)
  refine ⟨formatter.formatOutline (outline none tokens), ?_, ?_⟩
  · rw [format, read, Except.map, formatTokens_eq_formatOutline formatter tokens once]
  · rw [format, reread, Except.map, formatTokens_eq_formatOutline formatter others again, same]

def tightComments : List Token :=
  [.plain .comment "-- x" 0, .plain .blank "\n" 4, ⟨.reservedWord, "select", 5, "SELECT"⟩,
    .plain .blank " " 11, .plain .identifier "a" 12, .plain .blank " " 13,
    .plain .comment "/* y */" 14, .plain .comma "," 21, .plain .identifier "b" 22]

def looseComments : List Token :=
  [.plain .blank "\n\t" 0, .plain .comment "-- x" 2, .plain .blank "\n\n" 6,
    ⟨.reservedWord, "select", 8, "SELECT"⟩, .plain .blank "\n" 14, .plain .identifier "a" 15,
    .plain .blank "  " 16, .plain .comment "/* y */" 18, .plain .blank "\n" 25,
    .plain .comma "," 26, .plain .blank " " 27, .plain .identifier "b" 28, .plain .blank "\n" 29]

theorem format_eq_of_outline_comments :
    standard.format "-- x\nselect a /* y */,b" = .ok "-- x\nSELECT a /* y */,\n       b" ∧
      standard.format "\n\t-- x\n\nselect\na  /* y */\n, b\n" =
        .ok "-- x\nSELECT a /* y */,\n       b" := by
  have tight := (tokens?_eq_ok_iff (Keyword.Registry.common {})
    "-- x\nselect a /* y */,b" tightComments).2 (by decide +kernel)
  have loose := (tokens?_eq_ok_iff (Keyword.Registry.common {})
    "\n\t-- x\n\nselect\na  /* y */\n, b\n" looseComments).2 (by decide +kernel)
  have text : standard.format "-- x\nselect a /* y */,b" =
      .ok "-- x\nSELECT a /* y */,\n       b" := by
    rw [format, show standard.registry = (Keyword.Registry.common {}) from rfl, tight]
    exact congrArg Except.ok (by decide +kernel)
  obtain ⟨shown, first, second⟩ :=
    standard.format_eq_of_outline _ _ tightComments looseComments tight loose (by decide)
  rw [Except.ok.inj (first.symm.trans text)] at second
  exact ⟨text, second⟩

end Formatter

end SqlLayout
