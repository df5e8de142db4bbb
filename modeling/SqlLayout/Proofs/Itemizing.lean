import SqlLayout.Proofs.Pieces

/-! Items between commas. Cutting puts every element into the item between its two commas. Line
comments at the end of an item then go to the front of the next one, and from there on if
nothing but line comments is in front of the next comma. So the elements keep their order, no
comma has a line comment before it, and a line comment passes a comma only where all elements
on its way are line comments. -/
namespace SqlLayout.Tree

def joinItems : List (List Element) → List Token → List Element
  | item :: rest, comma :: commas => item ++ .token comma :: joinItems rest commas
  | items, _ => items.flatten

def writtenRuns (first : List Element) (others : List (Token × List Element)) : List Element :=
  first ++ others.flatMap fun part => .token part.1 :: part.2

/-- The place that a line comment of a run, with `before` in front of it and `after` behind it,
takes among items. As many line comments as before are in front of it. It is in the item that
it was written in or, where it passed commas, in the one behind the last of them, and all else
that it passed are line comments. -/
def Settles (before : List Element) (comment : Element) (after : List Element)
    (items : List (List Element)) : Prop :=
  ∃ left front back right passed rest,
    items = left ++ (front ++ comment :: back) :: right ∧
      (left.flatten ++ front).filter Element.isLineComment =
        before.filter Element.isLineComment ∧
      after = passed ++ rest ∧
      (∀ element ∈ passed, element.isLineComment = true ∨ element.isComma = true) ∧
      left.length = before.countP Element.isComma + passed.countP Element.isComma

section Cutting

theorem not_comma_of_lineComment {element : Element} (isLine : element.isLineComment = true) :
    element.isComma = false := by
  cases element with
  | token token =>
    simp only [Element.isLineComment, Element.isTokenWith, Element.token?, Option.any_some,
      Token.isLineComment, Token.isComment, Bool.and_eq_true, decide_eq_true_eq] at isLine
    simp [Element.isComma, Element.isTokenWith, Element.token?, isLine.1]
  | group inner => rfl
  | case inner => rfl

theorem not_lineComment_of_comma {element : Element} (isComma : element.isComma = true) :
    element.isLineComment = false := by
  cases isLine : element.isLineComment with
  | false => rfl
  | true =>
    rw [not_comma_of_lineComment isLine] at isComma
    cases isComma

theorem isComma_token (token : Token) :
    (Element.token token).isComma = decide (token.kind = .comma) := rfl

theorem cutCommas_comma (token : Token) (rest : List Element) (isComma : token.kind = .comma) :
    cutCommas (.token token :: rest) =
      ([], (token, (cutCommas rest).1) :: (cutCommas rest).2) := by
  simp only [cutCommas, isComma, if_true]

theorem cutCommas_other (element : Element) (rest : List Element)
    (other : element.isComma = false) :
    cutCommas (element :: rest) = (element :: (cutCommas rest).1, (cutCommas rest).2) := by
  cases element with
  | token token =>
    rw [isComma_token, decide_eq_false_iff_not] at other
    simp only [cutCommas, other, if_false]
  | group inner => rfl
  | case inner => rfl

theorem cutCommas_spec (elements : List Element) :
    (∀ element ∈ (cutCommas elements).1, element.isComma = false) ∧
      (∀ part ∈ (cutCommas elements).2, ∀ element ∈ part.2, element.isComma = false) ∧
      (cutCommas elements).2.map (fun part => Element.token part.1) =
        elements.filter Element.isComma := by
  induction elements with
  | nil => simp
  | cons element rest ih =>
    obtain ⟨head, others, commas⟩ := ih
    cases isComma : element.isComma with
    | false =>
      rw [cutCommas_other element rest isComma]
      refine ⟨fun other member => ?_, others, ?_⟩
      · rcases List.mem_cons.1 member with rfl | later
        · exact isComma
        · exact head other later
      · rw [List.filter_cons_of_neg (by simp [isComma])]
        exact commas
    | true =>
      cases element with
      | token token =>
        rw [isComma_token, decide_eq_true_eq] at isComma
        rw [cutCommas_comma token rest isComma]
        refine ⟨by simp, fun part member => ?_, ?_⟩
        · rcases List.mem_cons.1 member with rfl | later
          · exact head
          · exact others part later
        · rw [List.filter_cons_of_pos (by simp [isComma_token, isComma]), List.map_cons, commas]
      | group inner => cases isComma
      | case inner => cases isComma

theorem joinItems_writtenRuns (first : List Element) (others : List (Token × List Element)) :
    joinItems (first :: others.map Prod.snd) (others.map Prod.fst) = writtenRuns first others := by
  induction others generalizing first with
  | nil => simp [joinItems, writtenRuns]
  | cons part rest ih =>
    rw [List.map_cons, List.map_cons, joinItems, ih, writtenRuns, writtenRuns, List.flatMap_cons,
      List.cons_append]

theorem writtenRuns_filter (keep : Element → Bool) (first : List Element)
    (others : List (Token × List Element))
    (dropped : ∀ part ∈ others, keep (.token part.1) = false) :
    (writtenRuns first others).filter keep =
      (first :: others.map Prod.snd).flatten.filter keep := by
  induction others generalizing first with
  | nil => simp [writtenRuns]
  | cons part rest ih =>
    have onward := ih part.2 fun other member => dropped other (List.mem_cons_of_mem part member)
    have front : writtenRuns first (part :: rest) =
        first ++ .token part.1 :: writtenRuns part.2 rest := by
      rw [writtenRuns, List.flatMap_cons]
      rfl
    rw [front, List.filter_append, List.filter_cons_of_neg
      (Bool.eq_false_iff.1 (dropped part List.mem_cons_self)), onward, ← List.filter_append]
    rfl

theorem writtenRuns_cutCommas (elements : List Element) :
    writtenRuns (cutCommas elements).1 (cutCommas elements).2 = elements :=
  cutCommas_flatten elements

end Cutting

section Moving

theorem not_belongs_of_getLast? (belongs : Element → Bool) (elements : List Element)
    (last : Element) (stands : (splitTrailing belongs elements).1.getLast? = some last) :
    belongs last = false := by
  rw [splitTrailing, List.getLast?_reverse] at stands
  have head := List.head?_dropWhile_not belongs elements.reverse
  rw [stands] at head
  simpa using head

theorem moveLineComments_last (carried : List Element) (items : List (List Element)) :
    ∀ item ∈ (moveLineComments carried items).dropLast, ∀ last, item.getLast? = some last →
      last.isLineComment = false := by
  induction items generalizing carried with
  | nil => simp [moveLineComments]
  | cons item rest ih =>
    cases rest with
    | nil => simp [moveLineComments]
    | cons next others =>
      have filled : moveLineComments (splitTrailing Element.isLineComment (carried ++ item)).2
          (next :: others) ≠ [] := by
        rw [← List.length_pos_iff, length_moveLineComments]
        exact Nat.succ_pos _
      simp only [moveLineComments, List.dropLast_cons_of_ne_nil filled]
      intro kept member last stands
      rcases List.mem_cons.1 member with rfl | later
      · exact not_belongs_of_getLast? _ _ last stands
      · exact ih _ kept later last stands

theorem moveLineComments_filter (carried : List Element) (items : List (List Element))
    (lines : ∀ element ∈ carried, element.isLineComment = true) :
    (moveLineComments carried items).map (List.filter (!Element.isLineComment ·)) =
      items.map (List.filter (!Element.isLineComment ·)) := by
  have gone (part : List Element) (all : ∀ element ∈ part, element.isLineComment = true) :
      part.filter (!Element.isLineComment ·) = [] := by
    simpa [List.filter_eq_nil_iff] using all
  induction items generalizing carried with
  | nil => rfl
  | cons item rest ih =>
    cases rest with
    | nil => simp [moveLineComments, gone carried lines]
    | cons next others =>
      have moved := belongs_of_mem_trailing Element.isLineComment (carried ++ item)
      have whole := congrArg (List.filter (!Element.isLineComment ·))
        (splitTrailing_append Element.isLineComment (carried ++ item))
      rw [List.filter_append, List.filter_append, gone _ moved, gone _ lines, List.append_nil,
        List.nil_append] at whole
      simp only [moveLineComments, List.map_cons, whole]
      rw [ih _ moved, List.map_cons]

theorem joinItems_filter (keep : Element → Bool) (items : List (List Element))
    (commas : List Token) (kept : ∀ comma ∈ commas, keep (.token comma) = true) :
    (joinItems items commas).filter keep = joinItems (items.map (List.filter keep)) commas := by
  induction items generalizing commas with
  | nil => simp [joinItems]
  | cons item rest ih =>
    cases commas with
    | nil => simp [joinItems, List.filter_flatten]
    | cons comma commas =>
      have onward := ih commas fun other member => kept other (List.mem_cons_of_mem comma member)
      rw [joinItems, List.filter_append, List.filter_cons_of_pos (kept comma List.mem_cons_self),
        onward, List.map_cons, joinItems]

theorem countP_comma_of_lines (elements : List Element)
    (lines : ∀ element ∈ elements, element.isLineComment = true) :
    elements.countP Element.isComma = 0 := by
  rw [List.countP_eq_zero]
  intro element member
  simp [not_comma_of_lineComment (lines element member)]

theorem append_cons_cases {front back before after : List Element} {element : Element}
    (same : front ++ back = before ++ element :: after) :
    (∃ further, front = before ++ element :: further ∧ after = further ++ back) ∨
      ∃ more, before = front ++ more ∧ back = more ++ element :: after := by
  rcases List.append_eq_append_iff.1 same with ⟨more, rfl, behind⟩ | ⟨more, rfl, behind⟩
  · exact .inr ⟨more, rfl, behind⟩
  · cases more with
    | nil => exact .inr ⟨[], by simp, by simpa using behind.symm⟩
    | cons other further =>
      obtain ⟨rfl, rfl⟩ := List.cons.inj behind
      exact .inl ⟨further, rfl, rfl⟩

section Settling

variable {kept moved before further rest : List Element} {comment : Element} {comma : Token}
  {items : List (List Element)}

theorem Settles.behind {after : List Element}
    (settles : Settles (moved ++ further) comment after items)
    (lines : ∀ element ∈ moved, element.isLineComment = true)
    (keptPlain : kept.countP Element.isComma = 0) (isComma : (Element.token comma).isComma = true) :
    Settles (kept ++ (moved ++ .token comma :: further)) comment after (kept :: items) := by
  obtain ⟨left, front, back, right, passed, rest, rfl, order, way, only, index⟩ := settles
  have silent := not_lineComment_of_comma isComma
  refine ⟨kept :: left, front, back, right, passed, rest, rfl, ?_, way, only, ?_⟩
  · rw [List.flatten_cons, List.append_assoc, List.filter_append, order, List.filter_append,
      List.filter_append, List.filter_append, List.filter_cons_of_neg (Bool.eq_false_iff.1 silent)]
  · simp only [List.countP_append, List.countP_cons, isComma, keptPlain,
      countP_comma_of_lines moved lines, List.length_cons, if_true] at index ⊢
    omega

/-- A line comment that is carried over a comma passes what is between it and the comma, then
whatever it passes from there. -/
theorem Settles.carried (settles : Settles before comment (further ++ rest) items)
    (linesBefore : ∀ element ∈ before, element.isLineComment = true)
    (linesBehind : ∀ element ∈ further, element.isLineComment = true)
    (keptPlain : kept.countP Element.isComma = 0) (isComma : (Element.token comma).isComma = true) :
    Settles (kept ++ before) comment (further ++ .token comma :: rest) (kept :: items) := by
  obtain ⟨left, front, back, right, passed, left', rfl, order, way, only, index⟩ := settles
  have ordered : ((kept :: left).flatten ++ front).filter Element.isLineComment =
      (kept ++ before).filter Element.isLineComment := by
    rw [List.flatten_cons, List.append_assoc, List.filter_append, order, List.filter_append]
  have none := countP_comma_of_lines before linesBefore
  have noneBehind := countP_comma_of_lines further linesBehind
  rcases List.append_eq_append_iff.1 way with ⟨more, rfl, rfl⟩ | ⟨more, rfl, rfl⟩
  · refine ⟨kept :: left, front, back, right, further ++ .token comma :: more, left', rfl, ordered,
      by simp, fun element member => ?_, ?_⟩
    · rcases List.mem_append.1 member with inFurther | behind
      · exact .inl (linesBehind element inFurther)
      · rcases List.mem_cons.1 behind with rfl | later
        · exact .inr isComma
        · exact only element (List.mem_append_right _ later)
    · simp only [List.countP_append, List.countP_cons, isComma, keptPlain, none, noneBehind,
        List.length_cons, if_true] at index ⊢
      omega
  · refine ⟨kept :: left, front, back, right, passed ++ more ++ [.token comma], rest, rfl, ordered,
      by simp, fun element member => ?_, ?_⟩
    · rcases List.mem_append.1 member with inFurther | here
      · exact .inl (linesBehind element inFurther)
      · rw [List.mem_singleton.1 here]
        exact .inr isComma
    · rw [List.countP_append] at noneBehind
      simp only [List.countP_append, List.countP_cons, isComma, keptPlain, none, List.countP_nil,
        List.length_cons, if_true] at index ⊢
      omega

theorem Settles.stays {after : List Element} (keptPlain : before.countP Element.isComma = 0) :
    Settles before comment (further ++ after) ((before ++ comment :: further) :: items) :=
  ⟨[], before, further, items, [], further ++ after, rfl, rfl, rfl, by simp, by simp [keptPlain]⟩

end Settling

/-- Where a line comment settles, by induction on the commas behind the first run. The line
comments that have been carried so far stand in front of that run. -/
theorem settles_moveLineComments (first carried : List Element)
    (others : List (Token × List Element)) (before after : List Element) (comment : Element)
    (lines : ∀ element ∈ carried, element.isLineComment = true)
    (plain : ∀ element ∈ first, element.isComma = false)
    (parts : ∀ part ∈ others, part.1.kind = .comma ∧ ∀ element ∈ part.2, element.isComma = false)
    (isLine : comment.isLineComment = true)
    (whole : carried ++ writtenRuns first others = before ++ comment :: after) :
    Settles before comment after (moveLineComments carried (first :: others.map Prod.snd)) := by
  have noComma : (carried ++ first).countP Element.isComma = 0 := by
    rw [List.countP_append, countP_comma_of_lines carried lines, Nat.zero_add,
      List.countP_eq_zero]
    intro element member
    simp [plain element member]
  induction others generalizing first carried before after with
  | nil =>
    rw [writtenRuns, List.flatMap_nil, List.append_nil] at whole
    rw [whole, List.countP_append, Nat.add_eq_zero_iff] at noComma
    rw [List.map_nil, moveLineComments, whole]
    have stays : Settles before comment (after ++ []) [before ++ comment :: after] :=
      .stays noComma.1
    rwa [List.append_nil] at stays
  | cons part others ih =>
    obtain ⟨comma, next⟩ := part
    obtain ⟨isComma, nextPlain⟩ := parts (comma, next) List.mem_cons_self
    have counted : (Element.token comma).isComma = true := by rw [isComma_token, isComma]; rfl
    obtain ⟨kept, moved, split⟩ :
        ∃ kept moved, splitTrailing Element.isLineComment (carried ++ first) = (kept, moved) :=
      ⟨_, _, rfl⟩
    have same : kept ++ moved = carried ++ first := by
      simpa [split] using splitTrailing_append Element.isLineComment (carried ++ first)
    have movedLines : ∀ element ∈ moved, element.isLineComment = true := by
      simpa [split] using belongs_of_mem_trailing Element.isLineComment (carried ++ first)
    have onward (front rest : List Element) := ih next moved front rest movedLines nextPlain
      fun part member => parts part (List.mem_cons_of_mem _ member)
    have nextComma : (moved ++ next).countP Element.isComma = 0 := by
      rw [List.countP_append, countP_comma_of_lines moved movedLines, Nat.zero_add,
        List.countP_eq_zero]
      intro element member
      simp [nextPlain element member]
    rw [← same, List.countP_append, Nat.add_eq_zero_iff] at noComma
    have made : moveLineComments carried (first :: ((comma, next) :: others).map Prod.snd) =
        kept :: moveLineComments moved (next :: others.map Prod.snd) := by
      simp only [List.map_cons, moveLineComments, split]
    have tape : carried ++ writtenRuns first ((comma, next) :: others) =
        kept ++ (moved ++ .token comma :: writtenRuns next others) := by
      rw [writtenRuns, List.flatMap_cons, ← List.append_assoc, ← same, List.append_assoc]
      rfl
    have notHere : comment ≠ .token comma := by
      rintro rfl
      rw [not_comma_of_lineComment isLine] at counted
      cases counted
    rw [tape] at whole
    rw [made]
    rcases append_cons_cases whole with ⟨further, rfl, rfl⟩ | ⟨more, rfl, behind⟩
    · rw [List.countP_append, Nat.add_eq_zero_iff] at noComma
      exact .stays noComma.1.1
    · rcases append_cons_cases behind with ⟨further, rfl, rfl⟩ | ⟨further, rfl, later⟩
      · -- The comment is carried over the comma.
        exact (onward more _ (by simp) nextComma).carried
          (fun element member => movedLines element (by simp [member]))
          (fun element member => movedLines element (by simp [member])) noComma.1 counted
      · -- The comment stands behind the comma.
        cases further with
        | nil => exact absurd (List.cons.inj later).1.symm notHere
        | cons element further =>
          obtain ⟨rfl, within⟩ := List.cons.inj later
          exact (onward (moved ++ further) after (by rw [within]; simp) nextComma).behind movedLines
            noComma.1 counted

end Moving

/-- The items of a run that is not empty. There is one more than there are commas, which are
kept in order and stand in no item; no item but the last ends with a line comment; joined with
the commas again, the items give the run but for the places of line comments; these are in
order, and each has passed only such commas as have nothing but line comments between it and
them. -/
theorem splitItems_between_commas (elements : List Element) (filled : elements ≠ []) :
    (splitItems elements).items.length = elements.countP Element.isComma + 1 ∧
      (splitItems elements).commas.map Element.token = elements.filter Element.isComma ∧
      (∀ item ∈ (splitItems elements).items, ∀ element ∈ item, element.isComma = false) ∧
      (∀ item ∈ (splitItems elements).items.dropLast, ∀ last, item.getLast? = some last →
        last.isLineComment = false) ∧
      (joinItems (splitItems elements).items (splitItems elements).commas).filter
          (!Element.isLineComment ·) =
        elements.filter (!Element.isLineComment ·) ∧
      (splitItems elements).items.flatten.filter Element.isLineComment =
        elements.filter Element.isLineComment ∧
      ∀ before comment after, elements = before ++ comment :: after →
        comment.isLineComment = true →
          Settles before comment after (splitItems elements).items := by
  obtain ⟨head, others, commas⟩ := cutCommas_spec elements
  have kinds := cutCommas_kind elements
  have written := writtenRuns_cutCommas elements
  have split : splitItems elements = ⟨moveLineComments [] ((cutCommas elements).1 ::
      (cutCommas elements).2.map Prod.snd), (cutCommas elements).2.map Prod.fst⟩ := by
    rw [splitItems, if_neg (by rwa [List.isEmpty_iff])]
  rw [split]
  generalize cutCommas elements = cut at head others commas kinds written
  obtain ⟨first, parts⟩ := cut
  simp only at head others commas kinds written ⊢
  have flat := moveLineComments_flatten [] (first :: parts.map Prod.snd) (List.cons_ne_nil _ _)
  have free : ∀ element ∈ (first :: parts.map Prod.snd).flatten, element.isComma = false := by
    intro element member
    rw [List.flatten_cons] at member
    rcases List.mem_append.1 member with inHead | inPart
    · exact head element inHead
    · obtain ⟨run, stands, inside⟩ := List.mem_flatten.1 inPart
      obtain ⟨part, isPart, rfl⟩ := List.mem_map.1 stands
      exact others part isPart element inside
  have silent : ∀ part ∈ parts, (Element.token part.1).isLineComment = false := fun part member =>
    not_lineComment_of_comma (by rw [isComma_token, kinds part member]; rfl)
  refine ⟨?_, ?_, fun item stands element member => ?_, moveLineComments_last [] _, ?_, ?_,
    fun before comment after whole isLine => ?_⟩
  · rw [length_moveLineComments, List.length_cons, List.length_map, List.countP_eq_length_filter,
      ← commas, List.length_map]
  · rw [List.map_map, ← commas]
    rfl
  · refine free element ?_
    rw [List.nil_append] at flat
    rw [← flat]
    exact List.mem_flatten.2 ⟨item, stands, member⟩
  · have kept : ∀ comma ∈ parts.map Prod.fst, (!(Element.token comma).isLineComment) = true := by
      intro comma member
      obtain ⟨part, isPart, rfl⟩ := List.mem_map.1 member
      rw [silent part isPart]
      rfl
    rw [joinItems_filter (!Element.isLineComment ·) _ _ kept,
      moveLineComments_filter [] _ (by simp),
      ← joinItems_filter (!Element.isLineComment ·) _ _ kept, joinItems_writtenRuns, written]
  · rw [flat, List.nil_append, ← writtenRuns_filter _ first parts silent, written]
  · exact settles_moveLineComments first [] parts before after comment (by simp) head
      (fun part member => ⟨kinds part member, others part member⟩) isLine
      (by rw [List.nil_append, written, whole])

def commentedItems : List Element :=
  [.token (.plain .identifier "a" 0), .token (.plain .comment "-- x" 2),
    .token (.plain .comma "," 7), .token (.plain .comment "-- y" 9), .token (.plain .comma "," 14),
    .token (.plain .identifier "b" 16)]

theorem splitItems_between_commas_passed :
    commentedItems ≠ [] ∧
      (splitItems commentedItems).items =
        [[.token (.plain .identifier "a" 0)], [],
          [.token (.plain .comment "-- x" 2), .token (.plain .comment "-- y" 9),
            .token (.plain .identifier "b" 16)]] ∧
      (splitItems commentedItems).items.length = 3 ∧
      Settles [.token (.plain .identifier "a" 0)] (.token (.plain .comment "-- x" 2))
        (commentedItems.drop 2) (splitItems commentedItems).items := by
  have filled : commentedItems ≠ [] := by simp [commentedItems]
  obtain ⟨count, -, -, -, -, -, settles⟩ := splitItems_between_commas commentedItems filled
  exact ⟨filled, rfl, count, settles _ _ _ rfl (by decide)⟩

end SqlLayout.Tree
