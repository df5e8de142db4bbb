import Mathlib.Data.List.Chain
import SqlLayout.Proofs.Trace

/-! Cutting a run keeps its tokens in their order, but for one thing: where a run is cut
into items, a line comment in front of a comma goes behind it. `Moves` says so of two
traces. Every cut is followed here, from the elements of a run to the clauses of a query. -/
namespace SqlLayout.Tree

open SqlLayout.Layout

/-- Some entries have gone to the right, past others that may be passed. -/
inductive Displaced {α : Type} (moves passes : α → Prop) : List α → List α → Prop
  | nil : Displaced moves passes [] []
  | cons (entry : α) {first second : List α} (rest : Displaced moves passes first second) :
      Displaced moves passes (entry :: first) (entry :: second)
  | swap (moved passed : α) (rest : List α) (mobile : moves moved) (passable : passes passed) :
      Displaced moves passes (moved :: passed :: rest) (passed :: moved :: rest)
  | trans {first second third : List α} (before : Displaced moves passes first second)
      (after : Displaced moves passes second third) : Displaced moves passes first third

namespace Displaced

variable {α : Type} {moves passes : α → Prop}

theorem refl (entries : List α) : Displaced moves passes entries entries := by
  induction entries with
  | nil => exact .nil
  | cons entry rest ih => exact .cons entry ih

theorem append_left (front : List α) {first second : List α}
    (rest : Displaced moves passes first second) :
    Displaced moves passes (front ++ first) (front ++ second) := by
  induction front with
  | nil => exact rest
  | cons entry others ih => exact .cons entry ih

theorem append_right {first second : List α} (front : Displaced moves passes first second)
    (rest : List α) : Displaced moves passes (first ++ rest) (second ++ rest) := by
  induction front with
  | nil => exact refl rest
  | cons entry _ ih => exact .cons entry ih
  | swap moved passed others mobile passable => exact .swap moved passed _ mobile passable
  | trans _ _ before after => exact .trans before after

theorem append {first second third fourth : List α}
    (front : Displaced moves passes first second) (rest : Displaced moves passes third fourth) :
    Displaced moves passes (first ++ third) (second ++ fourth) :=
  .trans (front.append_right third) (rest.append_left second)

theorem length_eq {first second : List α} (displaced : Displaced moves passes first second) :
    second.length = first.length := by
  induction displaced with
  | nil => rfl
  | cons entry _ ih => simp [ih]
  | swap moved passed rest => simp
  | trans _ _ before after => rw [after, before]

theorem mem_iff {first second : List α} (displaced : Displaced moves passes first second)
    (entry : α) : entry ∈ second ↔ entry ∈ first := by
  induction displaced with
  | nil => rfl
  | cons head _ ih => simp [ih]
  | swap moved passed rest =>
    simp only [List.mem_cons]
    grind
  | trans _ _ before after => rw [after, before]

theorem pass (moved : List α) (passed : α) (mobile : ∀ entry ∈ moved, moves entry)
    (passable : passes passed) :
    Displaced moves passes (moved ++ [passed]) (passed :: moved) := by
  induction moved with
  | nil => exact refl [passed]
  | cons entry rest ih =>
    have behind := ih fun other member => mobile other (List.mem_cons_of_mem entry member)
    exact .trans (.cons entry behind) (.swap entry passed rest (mobile entry (by simp)) passable)

theorem exists_sublist {first second : List α} (displaced : Displaced moves passes first second)
    (part : List α) (inside : part.Sublist second) :
    ∃ origin, origin.Sublist first ∧ Displaced moves passes origin part := by
  induction displaced generalizing part with
  | nil => exact ⟨part, inside, refl part⟩
  | cons entry _ ih =>
    cases inside with
    | cons _ later =>
      obtain ⟨origin, sub, rest⟩ := ih part later
      exact ⟨origin, sub.cons entry, rest⟩
    | cons_cons _ later =>
      obtain ⟨origin, sub, rest⟩ := ih _ later
      exact ⟨entry :: origin, sub.cons_cons entry, .cons entry rest⟩
  | swap moved passed rest mobile passable =>
    cases inside with
    | cons _ later =>
      cases later with
      | cons _ behind => exact ⟨part, (behind.cons passed).cons moved, refl part⟩
      | cons_cons _ behind => exact ⟨_, (behind.cons passed).cons_cons moved, refl _⟩
    | cons_cons _ later =>
      cases later with
      | cons _ behind => exact ⟨_, (behind.cons_cons passed).cons moved, refl _⟩
      | cons_cons _ behind =>
        exact ⟨_, (behind.cons_cons passed).cons_cons moved,
          .swap moved passed _ mobile passable⟩
  | trans _ _ before after =>
    obtain ⟨middle, sub, last⟩ := after part inside
    obtain ⟨origin, first, front⟩ := before middle sub
    exact ⟨origin, first, .trans front last⟩

theorem lift {β : Type} (movesHere passesHere : β → Prop) (image : β → α)
    (mobile : ∀ entry, moves (image entry) → movesHere entry)
    (passable : ∀ entry, passes (image entry) → passesHere entry) (entries : List β)
    (shown : List α) (displaced : Displaced moves passes (entries.map image) shown) :
    ∃ written, Displaced movesHere passesHere entries written ∧ written.map image = shown := by
  generalize start : entries.map image = first at displaced
  induction displaced generalizing entries with
  | nil => exact ⟨entries, refl entries, start⟩
  | cons entry _ ih =>
    obtain ⟨head, rest, rfl, rfl, tail⟩ := List.map_eq_cons_iff.1 start
    obtain ⟨written, moved, same⟩ := ih rest tail
    exact ⟨head :: written, .cons head moved, by rw [List.map_cons, same]⟩
  | swap moved passed rest isMobile isPassable =>
    obtain ⟨head, others, rfl, rfl, tail⟩ := List.map_eq_cons_iff.1 start
    obtain ⟨next, behind, rfl, rfl, rfl⟩ := List.map_eq_cons_iff.1 tail
    exact ⟨next :: head :: behind,
      .swap head next behind (mobile head isMobile) (passable next isPassable), by simp⟩
  | trans _ _ before after =>
    obtain ⟨middle, moved, same⟩ := before entries start
    obtain ⟨written, movedOn, last⟩ := after middle same
    exact ⟨written, .trans moved movedOn, last⟩

theorem eq_of_apart {first second : List α} (displaced : Displaced moves passes first second)
    (apart : first.IsChain fun entry next => moves entry → ¬passes next) : second = first := by
  induction displaced with
  | nil => rfl
  | cons entry rest ih => rw [ih apart.tail]
  | swap moved passed rest mobile passable =>
    exact absurd passable ((List.isChain_cons_cons.1 apart).1 mobile)
  | trans before after ih ih' =>
    have same := ih apart
    rw [ih' (by rwa [same]), same]

theorem eq_of_still {first second : List α} (displaced : Displaced moves passes first second)
    (still : ∀ entry ∈ first, ¬moves entry) : second = first := by
  refine displaced.eq_of_apart (List.isChain_iff_forall_rel_of_append_cons_cons.2 ?_)
  intro entry next front back whole mobile
  exact absurd mobile (still entry (by simp [whole]))

end Displaced

namespace Mark

def face (mark : Mark) : Mark :=
  if mark.kind = .comma then commaMark else mark

def Mobile (mark : Mark) : Prop :=
  mark.token.isLineComment = true

def IsComma (mark : Mark) : Prop :=
  mark.kind = .comma

theorem face_of_ne_comma (mark : Mark) (other : mark.kind ≠ .comma) : mark.face = mark := by
  rw [face, if_neg other]

theorem face_of_comma (mark : Mark) (isComma : mark.kind = .comma) : mark.face = commaMark := by
  rw [face, if_pos isComma]

end Mark

def Trace.faces (trace : Trace) : List Mark :=
  trace.marks.map Mark.face

@[simp] theorem Trace.faces_append (first second : Trace) :
    (first ++ second).faces = first.faces ++ second.faces := by
  simp [faces]

@[simp] theorem Trace.length_faces (trace : Trace) : trace.faces.length = trace.marks.length := by
  simp [faces]

/-- The same tokens and forms, but that line comments may have gone behind commas and
commas may have been replaced. -/
structure Moves (source shown : Trace) : Prop where
  forms : shown.forms = source.forms
  order : Displaced Mark.Mobile Mark.IsComma source.faces shown.faces
  members : ∀ mark ∈ shown.marks, mark = commaMark ∨ mark ∈ source.marks

namespace Moves

variable {first second third fourth : Trace}

theorem refl (trace : Trace) : Moves trace trace where
  forms := rfl
  order := .refl _
  members := fun _ member => .inr member

theorem of_eq (same : first = second) : Moves first second := by
  rw [same]
  exact refl second

theorem trans (before : Moves first second) (after : Moves second third) : Moves first third where
  forms := after.forms.trans before.forms
  order := .trans before.order after.order
  members := by
    intro mark member
    rcases after.members mark member with comma | inside
    · exact .inl comma
    · exact before.members mark inside

theorem append (front : Moves first second) (rest : Moves third fourth) :
    Moves (first ++ third) (second ++ fourth) where
  forms := by simp [front.forms, rest.forms]
  order := by
    rw [Trace.faces_append, Trace.faces_append]
    exact front.order.append rest.order
  members := by
    intro mark member
    rw [Trace.marks_append, List.mem_append] at member ⊢
    rcases member with inFront | inRest
    · rcases front.members mark inFront with comma | inside
      · exact .inl comma
      · exact .inr (.inl inside)
    · rcases rest.members mark inRest with comma | inside
      · exact .inl comma
      · exact .inr (.inr inside)

theorem length_eq (moves : Moves first second) : second.marks.length = first.marks.length := by
  simpa using moves.order.length_eq

end Moves

theorem traceRun_branches (branches : List (Branch Element)) :
    traceRun (branches.flatMap fun branch => .token branch.keyword :: branch.elements) =
      traceBranches branches := by
  induction branches with
  | nil => rfl
  | cons branch rest ih =>
    rw [List.flatMap_cons, traceRun_append, ih, traceRun, Element.trace, traceBranches]

theorem traceRun_cutAt (opens : Token → List Element → Bool) (elements : List Element) :
    traceRun elements =
      traceRun (cutAt opens elements).1 ++ traceBranches (cutAt opens elements).2 := by
  rw [← traceRun_branches, ← traceRun_append, cutAt_flatten]

theorem traceRun_conditions (conditions : List (Condition Element)) :
    traceRun (conditions.flatMap fun condition =>
      condition.connector.toList.map .token ++ condition.elements) =
      traceConditions conditions := by
  induction conditions with
  | nil => rfl
  | cons condition rest ih =>
    rw [List.flatMap_cons, traceRun_append, traceRun_append, ih, traceConditions]
    cases condition.connector with
    | none => rfl
    | some connector => simp [traceRun, Element.trace, Trace.ofTokens, Trace.ofToken]

theorem traceRun_cutConditions (between : Bool) (elements : List Element) :
    traceRun elements =
      traceRun (cutConditions between elements).1 ++
        traceConditions (cutConditions between elements).2 := by
  rw [← traceRun_conditions, ← traceRun_append, cutConditions_flatten]

theorem traceConditions_split (elements : List Element) :
    traceConditions (splitConditions elements) = traceRun elements := by
  cases elements with
  | nil => rfl
  | cons first rest =>
    rw [traceRun_cutConditions false]
    simp [splitConditions, traceConditions, Trace.ofTokens, Trace.ext_iff]

theorem traceConditions_after (keyword : Token) (elements : List Element) :
    traceConditions (conditionsAfter keyword elements) = .ofToken keyword ++ traceRun elements := by
  rw [traceRun_cutConditions false]
  simp [conditionsAfter, traceConditions, Trace.ext_iff]

theorem moves_comments (comments : List Element)
    (lineComments : ∀ element ∈ comments, element.isLineComment = true) :
    Moves (traceRun comments ++ .ofToken commaToken) (.ofToken commaToken ++ traceRun comments) := by
  have tokens : ∃ found : List Token, comments = found.map .token ∧
      ∀ token ∈ found, token.isLineComment = true := by
    induction comments with
    | nil => exact ⟨[], rfl, by simp⟩
    | cons element rest ih =>
      obtain ⟨found, rfl, all⟩ := ih fun other member =>
        lineComments other (List.mem_cons_of_mem element member)
      have head := lineComments element (by simp)
      cases element with
      | token token => exact ⟨token :: found, rfl, by simpa using ⟨head, by simpa using all⟩⟩
      | group inner =>
        simp [Element.isLineComment, Element.isTokenWith, Element.token?] at head
      | case inner =>
        simp [Element.isLineComment, Element.isTokenWith, Element.token?] at head
  obtain ⟨found, rfl, all⟩ := tokens
  have shown : traceRun (found.map .token) = .ofTokens found := by
    clear lineComments all
    induction found with
    | nil => rfl
    | cons token rest ih =>
      simp [traceRun, Element.trace, ih, Trace.ext_iff]
  have faces : (Trace.ofTokens found).faces = found.map .ofToken := by
    simp only [Trace.faces, Trace.marks_ofTokens, List.map_map]
    refine List.map_congr_left fun token member => Mark.face_of_ne_comma _ ?_
    have isComment := all token member
    intro isComma
    simp only [Mark.ofToken] at isComma
    simp [Token.isLineComment, Token.isComment, isComma] at isComment
  rw [shown]
  refine ⟨by simp, ?_, ?_⟩
  · rw [Trace.faces_append, Trace.faces_append, faces]
    refine Displaced.pass _ commaMark ?_ rfl
    intro mark member
    obtain ⟨token, held, rfl⟩ := List.mem_map.1 member
    exact all token held
  · intro mark member
    simp only [Trace.marks_append, List.mem_append] at member ⊢
    exact .inr member.symm

theorem moves_moveLineComments (carried : List Element) (first : List Element)
    (rest : List (List Element)) :
    Moves (traceRun carried ++ traceItems (first :: rest))
      (traceItems (moveLineComments carried (first :: rest))) := by
  induction rest generalizing carried first with
  | nil =>
    refine .of_eq ?_
    simp [moveLineComments, traceItems, traceMore]
  | cons next others ih =>
    obtain ⟨kept, moved, split⟩ :
        ∃ kept moved, splitTrailing Element.isLineComment (carried ++ first) = (kept, moved) :=
      ⟨_, _, rfl⟩
    have whole : kept ++ moved = carried ++ first := by
      simpa [split] using splitTrailing_append Element.isLineComment (carried ++ first)
    have lineComments : ∀ element ∈ moved, element.isLineComment = true := by
      simpa [split] using belongs_of_mem_trailing Element.isLineComment (carried ++ first)
    have tail := ih moved next
    have passed := (moves_comments moved lineComments).append (.refl (traceItems (next :: others)))
    have step : Moves (traceRun kept ++ (traceRun moved ++ .ofToken commaToken ++
        traceItems (next :: others)))
        (traceRun kept ++ (.ofToken commaToken ++
          traceItems (moveLineComments moved (next :: others)))) := by
      refine (Moves.refl _).append (passed.trans ?_)
      rw [Trace.append_assoc]
      exact (Moves.refl _).append tail
    have source : traceRun carried ++ traceItems (first :: next :: others) =
        traceRun kept ++ (traceRun moved ++ .ofToken commaToken ++
          traceItems (next :: others)) := by
      have runs : traceRun carried ++ traceRun first = traceRun kept ++ traceRun moved := by
        rw [← traceRun_append, ← traceRun_append, whole]
      rw [traceItems, traceMore, ← Trace.append_assoc, runs, traceItems]
      simp [Trace.append_assoc]
    have target : traceItems (moveLineComments carried (first :: next :: others)) =
        traceRun kept ++ (.ofToken commaToken ++
          traceItems (moveLineComments moved (next :: others))) := by
      simp only [moveLineComments, split]
      rw [traceItems]
      obtain ⟨head, items, moving⟩ : ∃ head items,
          moveLineComments moved (next :: others) = head :: items := by
        cases moving : moveLineComments moved (next :: others) with
        | nil =>
          have count := length_moveLineComments moved (next :: others)
          simp [moving] at count
        | cons head items => exact ⟨head, items, rfl⟩
      rw [moving, traceMore, traceItems]
      simp [Trace.append_assoc]
    rw [source, target]
    exact step

theorem moves_cutCommas (elements : List Element) :
    Moves (traceRun elements)
      (traceItems ((cutCommas elements).1 :: (cutCommas elements).2.map Prod.snd)) := by
  have commas := cutCommas_kind elements
  have whole := cutCommas_flatten elements
  generalize cutCommas elements = parts at commas whole
  obtain ⟨first, others⟩ := parts
  simp only at commas whole
  have more : Moves (traceRun (others.flatMap fun part => .token part.1 :: part.2))
      (traceMore (others.map Prod.snd)) := by
    clear whole
    induction others with
    | nil => exact .refl _
    | cons part rest ih =>
      have tail := ih fun other member => commas other (List.mem_cons_of_mem part member)
      have comma : Moves (.ofToken part.1) (.ofToken commaToken) := by
        refine ⟨rfl, ?_, by simp [commaMark]⟩
        rw [Trace.faces, Trace.faces]
        simp only [Trace.marks_ofToken, List.map_cons, List.map_nil]
        rw [Mark.face_of_comma (.ofToken part.1) (commas part (by simp))]
        exact .refl _
      have run : traceRun ((part :: rest).flatMap fun part => .token part.1 :: part.2) =
          .ofToken part.1 ++ traceRun part.2 ++
            traceRun (rest.flatMap fun part => .token part.1 :: part.2) := by
        rw [List.flatMap_cons, traceRun_append, traceRun, Element.trace]
      rw [run, List.map_cons, traceMore]
      exact (comma.append (.refl _)).append tail
  rw [← whole, traceRun_append, traceItems]
  exact (Moves.refl _).append more

theorem moves_splitItems (elements : List Element) :
    Moves (traceRun elements) (traceItems (splitItems elements).items) := by
  unfold splitItems
  split
  · rename_i empty
    rw [List.isEmpty_iff.1 empty]
    exact .refl _
  · have cut := moves_cutCommas elements
    have moved := moves_moveLineComments [] (cutCommas elements).1
      ((cutCommas elements).2.map Prod.snd)
    rw [traceRun, Trace.empty_append] at moved
    exact cut.trans moved

theorem traceJoin_joinOf (branch : Branch Element) :
    traceJoin (joinOf branch) = .ofToken branch.keyword ++ traceRun branch.elements := by
  have whole := List.takeWhile_append_dropWhile (l := branch.elements)
    (p := fun element => !Element.isKeyword ["ON", "USING"] element)
  unfold joinOf
  simp only
  split
  · rename_i link rest found
    rw [found] at whole
    split
    · simp only [traceJoin, traceConditions_after, traceRun, Trace.append_empty]
      rw [← whole, traceRun_append, traceRun, Element.trace]
      simp only [whole, Trace.append_assoc]
    · simp only [traceJoin, traceConditions, Trace.append_empty]
      rw [← whole, traceRun_append, whole, Trace.append_assoc]
  · rename_i other
    -- What is left starts with a link, which is a token, or is nothing.
    have nothing : branch.elements.dropWhile
        (fun element => !Element.isKeyword ["ON", "USING"] element) = [] := by
      cases left : branch.elements.dropWhile
          (fun element => !Element.isKeyword ["ON", "USING"] element) with
      | nil => rfl
      | cons element rest =>
        have isLink := List.head?_dropWhile_not
          (fun element => !Element.isKeyword ["ON", "USING"] element) branch.elements
        rw [left] at isLink
        cases element with
        | token token => exact absurd left (other token rest)
        | group inner => simp [Element.isKeyword, Element.isTokenWith, Element.token?] at isLink
        | case inner => simp [Element.isKeyword, Element.isTokenWith, Element.token?] at isLink
    rw [nothing, List.append_nil] at whole
    simp only [traceJoin, traceConditions, traceRun, Trace.append_empty, whole]

theorem traceJoins_map (branches : List (Branch Element)) :
    traceJoins (branches.map joinOf) = traceBranches branches := by
  induction branches with
  | nil => rfl
  | cons branch rest ih =>
    rw [List.map_cons, traceJoins, ih, traceBranches, ← traceJoin_joinOf]
    rfl

theorem traceRun_splitModifiers (elements : List Element) :
    traceRun elements =
      traceRun (splitModifiers false elements).1 ++ traceRun (splitModifiers false elements).2 := by
  rw [← traceRun_append, splitModifiers_append]

theorem moves_clauseOf (keyword : Option Token) (elements : List Element)
    (other : ∀ token, keyword = some token → token.contents ≠ "VALUES") :
    Moves (.ofTokens keyword.toList ++ traceRun elements) (clauseOf keyword elements).trace := by
  unfold clauseOf Clause.trace
  refine (Moves.refl _).append ?_
  cases keyword with
  | none =>
    simp only [Option.map_none, clauseBody, traceClause]
    exact .refl _
  | some word =>
    simp only [Option.map_some, clauseBody]
    split
    · simp only [traceClause]
      rw [traceRun_splitModifiers]
      exact (Moves.refl _).append (moves_splitItems _)
    split
    · simp only [traceClause, traceJoins_map]
      rw [traceRun_cutAt fun token _ => isJoinKeyword token]
      exact (moves_splitItems _).append (.refl _)
    split
    · simp only [traceClause, traceConditions_split]
      exact .refl _
    split
    · simp only [traceClause]
      exact moves_splitItems elements
    · rename_i notSelect notFrom notPredicate notList
      have kept : dropsRun word.contents = false := by
        have notValues := other word rfl
        simp_all [dropsRun]
      simp only [traceClause, Option.any_some, kept]
      exact .refl _

theorem moves_splitClauses (keywords : List String) (elements : List Element)
    (other : "VALUES" ∉ keywords) :
    Moves (traceRun elements) (traceClauses (splitClauses keywords elements)) := by
  have whole := cutClauses_flatten keywords elements
  have words := cutClauses_keyword keywords elements
  unfold splitClauses
  generalize cutClauses keywords elements = parts at whole words ⊢
  obtain ⟨head, branches⟩ := parts
  simp only at whole words ⊢
  have named : Moves (traceBranches branches)
      (traceClauses (branches.map fun branch =>
        clauseOf (some branch.keyword) branch.elements)) := by
    clear whole
    induction branches with
    | nil => exact .refl _
    | cons branch rest ih =>
      have tail := ih fun next member => words next (List.mem_cons_of_mem branch member)
      have first := moves_clauseOf (some branch.keyword) branch.elements (by
        intro token same isValues
        obtain rfl := Option.some.inj same
        rcases words branch (by simp) with known | isWith
        · rw [isValues] at known
          exact other known
        · rw [isValues] at isWith
          simp at isWith)
      rw [List.map_cons, traceClauses, traceBranches]
      exact first.append tail
  rw [← whole, traceRun_append, traceRun_branches]
  split
  · rename_i empty
    rw [List.isEmpty_iff.1 empty, traceRun, Trace.empty_append]
    exact named
  · have front := moves_clauseOf none head (by simp)
    have unnamed : Trace.ofTokens (none : Option Token).toList ++ traceRun head = traceRun head :=
      Trace.empty_append _
    rw [unnamed] at front
    rw [traceClauses]
    exact front.append named

end SqlLayout.Tree
