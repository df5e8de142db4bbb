import SqlLayout.Proofs.Pieces
import SqlLayout.Proofs.Walking

/-! CASE and END match like brackets. Reading a run from the left, every END takes the nearest
CASE before it that none has taken yet; the expressions that are made of the run are these
pairs, at every level, with places counted in the run. A CASE or an END without a partner stays
where it is, outside of all expressions, and what has been grouped is not grouped again. -/
namespace SqlLayout.Tree

mutual

/-- An element as it stood in its run before expressions were made. -/
def Element.flat : Element → List Element
  | .case ⟨keyword, closing, _, operand, branches⟩ =>
    .token keyword :: (flatRun operand ++ flatBranches branches ++ [.token closing])
  | .token token => [.token token]
  | .group inner => [.group inner]

def flatRun : List Element → List Element
  | [] => []
  | element :: rest => element.flat ++ flatRun rest

def flatBranches : List (Branch Element) → List Element
  | [] => []
  | ⟨keyword, elements⟩ :: rest => .token keyword :: (flatRun elements ++ flatBranches rest)

end

/-- An expression with the places of its CASE and its END in the flat run. -/
structure Placed where
  opening : Nat
  closing : Nat
  expression : Case Element

mutual

def Element.placed (place : Nat) : Element → List Placed
  | .case ⟨keyword, closing, depth, operand, branches⟩ =>
    let behind := place + 1 + (flatRun operand).length
    placedRun (place + 1) operand ++ placedBranches behind branches ++
      [⟨place, behind + (flatBranches branches).length,
        ⟨keyword, closing, depth, operand, branches⟩⟩]
  | .token _ => []
  | .group _ => []

def placedRun (place : Nat) : List Element → List Placed
  | [] => []
  | element :: rest => element.placed place ++ placedRun (place + element.flat.length) rest

def placedBranches (place : Nat) : List (Branch Element) → List Placed
  | [] => []
  | ⟨_, elements⟩ :: rest =>
    placedRun (place + 1) elements ++
      placedBranches (place + 1 + (flatRun elements).length) rest

end

/-- The places of every END and of its CASE, where `waiting` are the places of the CASEs that
have no END yet, the nearest first. -/
def matchedCases (waiting : List Nat) (place : Nat) : List Element → List (Nat × Nat)
  | [] => []
  | .token token :: rest =>
    if token.isKeyword ["CASE"] then matchedCases (place :: waiting) (place + 1) rest
    else if token.isKeyword ["END"] then
      match waiting with
      | [] => matchedCases [] (place + 1) rest
      | nearest :: others => (nearest, place) :: matchedCases others (place + 1) rest
    else matchedCases waiting (place + 1) rest
  | _ :: rest => matchedCases waiting (place + 1) rest

def Ungrouped (elements : List Element) : Prop :=
  ∀ expression, Element.case expression ∉ elements

theorem Ungrouped.of_subset {elements others : List Element} (ungrouped : Ungrouped elements)
    (subset : others ⊆ elements) : Ungrouped others :=
  fun expression member => ungrouped expression (subset member)

theorem Ungrouped.tail {element : Element} {rest : List Element}
    (ungrouped : Ungrouped (element :: rest)) : Ungrouped rest :=
  ungrouped.of_subset (List.subset_cons_self element rest)

def Case.content (expression : Case Element) : List Element :=
  expression.operand ++ expression.branches.flatMap Branch.pieces

/-- WHEN and ELSE begin the branches and stand nowhere else, and no CASE or END stands alone
between the two words of the expression. -/
structure Case.IsWhole (expression : Case Element) : Prop where
  operand : ∀ element ∈ expression.operand,
    element.isKeyword ["WHEN", "ELSE", "CASE", "END"] = false
  keyword : ∀ branch ∈ expression.branches, branch.keyword.isKeyword ["WHEN", "ELSE"] = true
  branch : ∀ branch ∈ expression.branches, ∀ element ∈ branch.elements,
    element.isKeyword ["WHEN", "ELSE", "CASE", "END"] = false

section Flat

theorem flatRun_append (first second : List Element) :
    flatRun (first ++ second) = flatRun first ++ flatRun second := by
  induction first with
  | nil => rfl
  | cons element rest ih => rw [List.cons_append, flatRun, ih, flatRun, List.append_assoc]

theorem flatBranches_eq (branches : List (Branch Element)) :
    flatBranches branches = flatRun (branches.flatMap Branch.pieces) := by
  induction branches with
  | nil => rfl
  | cons branch rest ih =>
    rw [flatBranches, ih, List.flatMap_cons, flatRun_append, Branch.pieces, flatRun, Element.flat]
    rfl

theorem flat_case (expression : Case Element) :
    (Element.case expression).flat =
      .token expression.keyword :: (flatRun expression.content ++ [.token expression.closing]) := by
  rw [Element.flat, flatBranches_eq, ← flatRun_append]
  rfl

theorem placedRun_append (place : Nat) (first second : List Element) :
    placedRun place (first ++ second) =
      placedRun place first ++ placedRun (place + (flatRun first).length) second := by
  induction first generalizing place with
  | nil => rfl
  | cons element rest ih =>
    rw [List.cons_append, placedRun, ih, placedRun, flatRun, List.length_append, List.append_assoc,
      Nat.add_assoc]

theorem placedBranches_eq (place : Nat) (branches : List (Branch Element)) :
    placedBranches place branches = placedRun place (branches.flatMap Branch.pieces) := by
  induction branches generalizing place with
  | nil => rfl
  | cons branch rest ih =>
    rw [placedBranches, ih, List.flatMap_cons, placedRun_append, Branch.pieces, placedRun, flatRun,
      Element.placed, Element.flat, List.nil_append, List.length_append, List.length_singleton,
      Nat.add_assoc place]

theorem placed_case (place : Nat) (expression : Case Element) :
    (Element.case expression).placed place =
      placedRun (place + 1) expression.content ++
        [⟨place, place + 1 + (flatRun expression.content).length, expression⟩] := by
  rw [Element.placed, placedBranches_eq, flatBranches_eq, Case.content, placedRun_append,
    flatRun_append, List.length_append, Nat.add_assoc (place + 1)]

theorem Ungrouped.flat {elements : List Element} (ungrouped : Ungrouped elements) :
    flatRun elements = elements := by
  induction elements with
  | nil => rfl
  | cons element rest ih =>
    rw [flatRun, ih ungrouped.tail]
    cases element with
    | token token => rfl
    | group inner => rfl
    | case inner => exact absurd List.mem_cons_self (ungrouped inner)

end Flat

section Brackets

variable {waiting others : List Nat} {place : Nat}

theorem matchedCases_opens (token : Token) (rest : List Element)
    (opens : token.isKeyword ["CASE"] = true) :
    matchedCases waiting place (.token token :: rest) =
      matchedCases (place :: waiting) (place + 1) rest := by
  simp only [matchedCases, opens, if_true]

theorem matchedCases_closes (nearest : Nat) (token : Token) (rest : List Element)
    (notOpen : token.isKeyword ["CASE"] = false) (closes : token.isKeyword ["END"] = true) :
    matchedCases (nearest :: waiting) place (.token token :: rest) =
      (nearest, place) :: matchedCases waiting (place + 1) rest := by
  simp only [matchedCases, notOpen, closes, if_true, Bool.false_eq_true, if_false]

theorem matchedCases_stray (token : Token) (rest : List Element)
    (notOpen : token.isKeyword ["CASE"] = false) :
    matchedCases [] place (.token token :: rest) = matchedCases [] (place + 1) rest := by
  simp only [matchedCases, notOpen, Bool.false_eq_true, if_false, ite_self]

theorem matchedCases_plain (element : Element) (rest : List Element)
    (plain : element.isKeyword ["CASE", "END"] = false) :
    matchedCases waiting place (element :: rest) = matchedCases waiting (place + 1) rest := by
  cases element with
  | token token =>
    obtain ⟨notOpen, notClose⟩ := plain_token_iff.1 plain
    simp only [matchedCases, notOpen, notClose, Bool.false_eq_true, if_false]
  | group inner => rfl
  | case inner => rfl

/-- An END that closes what is around a run takes the CASE that waits behind those of the run;
what waits further behind is not touched before it. -/
theorem matchedCases_found (elements before after : List Element) (closing : Token)
    (opening : Nat)
    (found : untilEnd waiting.length elements = some (before, closing, after)) :
    matchedCases (waiting ++ opening :: others) place elements =
      matchedCases waiting place before ++ (opening, place + before.length) ::
        matchedCases others (place + before.length + 1) after := by
  induction elements generalizing waiting place before with
  | nil => simp [untilEnd] at found
  | cons element rest ih =>
    rcases untilEnd_cases found with ⟨token, tail, rfl, opens, rfl, step⟩ |
      ⟨none, rfl, notOpen, closes, rfl, rfl⟩ |
      ⟨outer, token, tail, further, rfl, notOpen, closes, rfl, step⟩ | ⟨tail, plain, rfl, step⟩
    · have onward := @ih (place :: waiting) (place + 1) tail step
      rw [matchedCases_opens token rest opens, matchedCases_opens token tail opens,
        ← List.cons_append, onward, List.length_cons, Nat.add_right_comm place, Nat.add_assoc place]
    · obtain rfl := List.length_eq_zero_iff.1 none
      rw [List.nil_append, matchedCases_closes opening closing after notOpen closes]
      rfl
    · cases waiting with
      | nil => cases further
      | cons nearest waiting =>
        obtain rfl := Nat.succ.inj further
        have onward := @ih waiting (place + 1) tail step
        rw [List.cons_append, matchedCases_closes nearest token _ notOpen closes,
          matchedCases_closes nearest token tail notOpen closes, onward, List.length_cons,
          Nat.add_right_comm place, Nat.add_assoc place]
        rfl
    · have onward := @ih waiting (place + 1) tail step
      rw [matchedCases_plain element rest plain, matchedCases_plain element tail plain, onward,
        List.length_cons, Nat.add_right_comm place, Nat.add_assoc place]

theorem matchedCases_missing (elements : List Element)
    (missing : untilEnd waiting.length elements = none) :
    matchedCases (waiting ++ others) place elements = matchedCases waiting place elements := by
  induction elements generalizing waiting place with
  | nil => rfl
  | cons element rest ih =>
    rcases element.bracket_cases with ⟨token, rfl, opens⟩ | ⟨token, rfl, notOpen, closes⟩ | plain
    · rw [untilEnd_opens _ token rest opens, Option.map_eq_none_iff] at missing
      rw [matchedCases_opens token rest opens, matchedCases_opens token rest opens,
        ← List.cons_append]
      exact @ih (place :: waiting) _ missing
    · cases waiting with
      | nil =>
        rw [List.length_nil, untilEnd_closes token rest notOpen closes] at missing
        cases missing
      | cons nearest waiting =>
        rw [List.length_cons, untilEnd_closes_inner _ token rest notOpen closes,
          Option.map_eq_none_iff] at missing
        rw [List.cons_append, matchedCases_closes nearest token rest notOpen closes,
          matchedCases_closes nearest token rest notOpen closes, ih missing]
    · rw [untilEnd_plain _ element rest plain, Option.map_eq_none_iff] at missing
      rw [matchedCases_plain element rest plain, matchedCases_plain element rest plain, ih missing]

end Brackets

section Levels

def openAfter (inner : Nat) : List Element → Option Nat
  | [] => some inner
  | .token token :: rest =>
    if token.isKeyword ["CASE"] then openAfter (inner + 1) rest
    else if token.isKeyword ["END"] then
      match inner with
      | 0 => none
      | inner + 1 => openAfter inner rest
    else openAfter inner rest
  | _ :: rest => openAfter inner rest

theorem openAfter_opens (inner : Nat) (token : Token) (rest : List Element)
    (opens : token.isKeyword ["CASE"] = true) :
    openAfter inner (.token token :: rest) = openAfter (inner + 1) rest := by
  simp only [openAfter, opens, if_true]

theorem openAfter_closes (inner : Nat) (token : Token) (rest : List Element)
    (notOpen : token.isKeyword ["CASE"] = false) (closes : token.isKeyword ["END"] = true) :
    openAfter (inner + 1) (.token token :: rest) = openAfter inner rest := by
  simp only [openAfter, notOpen, closes, if_true, Bool.false_eq_true, if_false]

theorem openAfter_stray (token : Token) (rest : List Element)
    (notOpen : token.isKeyword ["CASE"] = false) (closes : token.isKeyword ["END"] = true) :
    openAfter 0 (.token token :: rest) = none := by
  simp only [openAfter, notOpen, closes, if_true, Bool.false_eq_true, if_false]

theorem openAfter_plain (inner : Nat) (element : Element) (rest : List Element)
    (plain : element.isKeyword ["CASE", "END"] = false) :
    openAfter inner (element :: rest) = openAfter inner rest := by
  cases element with
  | token token =>
    obtain ⟨notOpen, notClose⟩ := plain_token_iff.1 plain
    simp only [openAfter, notOpen, notClose, Bool.false_eq_true, if_false]
  | group inner => rfl
  | case inner => rfl

theorem openAfter_add (inner more left : Nat) (elements rest : List Element)
    (level : openAfter inner elements = some left) :
    openAfter (inner + more) (elements ++ rest) = openAfter (left + more) rest := by
  induction elements generalizing inner with
  | nil =>
    obtain rfl := Option.some.inj level
    rfl
  | cons element tail ih =>
    rw [List.cons_append]
    rcases element.bracket_cases with ⟨token, rfl, opens⟩ | ⟨token, rfl, notOpen, closes⟩ | plain
    · rw [openAfter_opens _ token tail opens] at level
      rw [openAfter_opens _ token _ opens, Nat.add_right_comm]
      exact ih (inner + 1) level
    · cases inner with
      | zero =>
        rw [openAfter_stray token tail notOpen closes] at level
        cases level
      | succ inner =>
        rw [openAfter_closes _ token tail notOpen closes] at level
        rw [Nat.add_right_comm, openAfter_closes _ token _ notOpen closes]
        exact ih inner level
    · rw [openAfter_plain _ element tail plain] at level
      rw [openAfter_plain _ element _ plain]
      exact ih inner level

theorem openAfter_of_found (inner : Nat) (elements before after : List Element) (closing : Token)
    (found : untilEnd inner elements = some (before, closing, after)) :
    openAfter inner before = some 0 ∧ closing.isKeyword ["CASE"] = false ∧
      closing.isKeyword ["END"] = true := by
  induction elements generalizing inner before with
  | nil => simp [untilEnd] at found
  | cons element rest ih =>
    rcases untilEnd_cases found with ⟨token, tail, rfl, opens, rfl, step⟩ |
      ⟨rfl, rfl, notOpen, closes, rfl, rfl⟩ |
      ⟨outer, token, tail, rfl, rfl, notOpen, closes, rfl, step⟩ | ⟨tail, plain, rfl, step⟩
    · rw [openAfter_opens _ token tail opens]
      exact ih (inner + 1) tail step
    · exact ⟨rfl, notOpen, closes⟩
    · rw [openAfter_closes _ token tail notOpen closes]
      exact ih outer tail step
    · rw [openAfter_plain _ element tail plain]
      exact ih inner tail step

theorem untilEnd_eq_none_iff (inner : Nat) (elements : List Element) :
    untilEnd inner elements = none ↔ ∃ left, openAfter inner elements = some left := by
  induction elements generalizing inner with
  | nil => simp [untilEnd, openAfter]
  | cons element rest ih =>
    rcases element.bracket_cases with ⟨token, rfl, opens⟩ | ⟨token, rfl, notOpen, closes⟩ | plain
    · rw [untilEnd_opens _ token rest opens, openAfter_opens _ token rest opens,
        Option.map_eq_none_iff, ih]
    · cases inner with
      | zero =>
        rw [untilEnd_closes token rest notOpen closes, openAfter_stray token rest notOpen closes]
        simp
      | succ inner =>
        rw [untilEnd_closes_inner _ token rest notOpen closes,
          openAfter_closes _ token rest notOpen closes, Option.map_eq_none_iff, ih]
    · rw [untilEnd_plain _ element rest plain, openAfter_plain _ element rest plain,
        Option.map_eq_none_iff, ih]

theorem openAfter_closed (inner : Nat) (token closing : Token) (rest before after : List Element)
    (opens : token.isKeyword ["CASE"] = true)
    (found : untilEnd 0 rest = some (before, closing, after)) :
    openAfter inner (.token token :: rest) = openAfter inner after := by
  obtain ⟨level, notOpen, closes⟩ := openAfter_of_found 0 rest before after closing found
  have onward := openAfter_add 0 (inner + 1) 0 before (.token closing :: after) level
  rw [Nat.zero_add] at onward
  rw [openAfter_opens _ token rest opens, untilEnd_flatten 0 rest before after closing found,
    onward, openAfter_closes _ closing after notOpen closes]

end Levels

section Grouped

theorem content_of_cut {inner operand : List Element} {branches : List (Branch Element)}
    (depth : Nat) (token closing : Token)
    (cut : cutAtWords ["WHEN", "ELSE"] inner = (operand, branches)) :
    Case.content ⟨token, closing, depth, operand, branches⟩ = inner := by
  have parts := pieces_cutAt (fun token _ => token.isKeyword ["WHEN", "ELSE"]) inner
  have made : cutAt (fun token _ => token.isKeyword ["WHEN", "ELSE"]) inner =
    (operand, branches) := cut
  rw [made] at parts
  exact parts

theorem flatRun_groupCases (depth : Nat) (elements : List Element) :
    flatRun (groupCases depth elements) = flatRun elements := by
  fun_induction groupCases depth elements with
  | case1 => rfl
  | case2 token rest opens inner closing after found operand branches cut ihInner ihAfter =>
    rw [flatRun, flat_case, content_of_cut depth token closing cut, ihInner, ihAfter,
      untilEnd_flatten 0 rest inner after closing found, flatRun, flatRun_append, flatRun,
      Element.flat, Element.flat]
    simp only [List.cons_append, List.nil_append, List.append_assoc]
  | case3 token rest opens missing ih => rw [flatRun, ih, flatRun]
  | case4 token rest other ih => rw [flatRun, ih, flatRun]
  | case5 element rest other ih => rw [flatRun, ih, flatRun]

/-- The expressions that are made are the pairs of CASE and END that match. -/
theorem placed_groupCases (depth place : Nat) (elements : List Element)
    (ungrouped : Ungrouped elements) :
    (placedRun place (groupCases depth elements)).map
        (fun found => (found.opening, found.closing)) =
      matchedCases [] place elements := by
  fun_induction groupCases depth elements generalizing place with
  | case1 => rfl
  | case2 token rest opens inner closing after found operand branches cut ihInner ihAfter =>
    have whole := untilEnd_flatten 0 rest inner after closing found
    have freeInner : Ungrouped inner :=
      ungrouped.tail.of_subset (by rw [whole]; exact List.subset_append_left _ _)
    have freeAfter : Ungrouped after :=
      ungrouped.tail.of_subset (by rw [whole]; intro element; simp +contextual)
    have length : (flatRun (groupCases depth inner)).length = inner.length := by
      rw [flatRun_groupCases, freeInner.flat]
    have matched := @matchedCases_found [] [] (place + 1) rest inner after closing place found
    rw [placedRun, placed_case, flat_case, content_of_cut depth token closing cut, length,
      matchedCases_opens token rest opens]
    rw [List.nil_append] at matched
    rw [matched, List.map_append, List.map_append, ihInner _ freeInner, ihAfter _ freeAfter]
    simp only [List.map_cons, List.map_nil, List.length_cons, List.length_append, length,
      List.append_assoc, List.cons_append, List.nil_append, List.length_nil]
    grind
  | case3 token rest opens missing ih =>
    have untouched := @matchedCases_missing [] [place] (place + 1) rest missing
    rw [placedRun, Element.placed, Element.flat, List.nil_append, List.length_singleton,
      ih _ ungrouped.tail, matchedCases_opens token rest opens]
    exact untouched.symm
  | case4 token rest other ih =>
    rw [placedRun, Element.placed, Element.flat, List.nil_append, List.length_singleton,
      ih _ ungrouped.tail, matchedCases_stray token rest (by simpa using other)]
  | case5 element rest other ih =>
    cases element with
    | token token => exact absurd rfl (other token)
    | group inner =>
      rw [placedRun, Element.placed, Element.flat, List.nil_append, List.length_singleton,
        ih _ ungrouped.tail]
      rfl
    | case inner => exact absurd List.mem_cons_self (ungrouped inner)

theorem not_keyword_of_cutAtWords (words : List String) (elements : List Element) :
    (∀ element ∈ (cutAtWords words elements).1, element.isKeyword words = false) ∧
      ∀ branch ∈ (cutAtWords words elements).2, branch.keyword.isKeyword words = true ∧
        ∀ element ∈ branch.elements, element.isKeyword words = false := by
  induction elements with
  | nil => exact ⟨by simp [cutAtWords], by simp [cutAtWords]⟩
  | cons element rest ih =>
    obtain ⟨head, branches⟩ := ih
    cases element with
    | token token =>
      simp only [cutAtWords, cutAt] at head branches ⊢
      split
      · rename_i isWord
        refine ⟨by simp, fun branch member => ?_⟩
        rcases List.mem_cons.1 member with rfl | later
        · exact ⟨isWord, head⟩
        · exact branches branch later
      · rename_i other
        refine ⟨fun element member => ?_, branches⟩
        rcases List.mem_cons.1 member with rfl | later
        · exact Bool.eq_false_iff.2 other
        · exact head element later
    | group inner =>
      refine ⟨fun element member => ?_, branches⟩
      rcases List.mem_cons.1 member with rfl | later
      · rfl
      · exact head element later
    | case inner =>
      refine ⟨fun element member => ?_, branches⟩
      rcases List.mem_cons.1 member with rfl | later
      · rfl
      · exact head element later

theorem plain_of_groupCases (depth : Nat) (elements : List Element)
    (level : openAfter 0 elements = some 0) :
    ∀ element ∈ groupCases depth elements, element.isKeyword ["CASE", "END"] = false := by
  fun_induction groupCases depth elements with
  | case1 => simp
  | case2 token rest opens inner closing after found operand branches cut _ ihAfter =>
    rw [openAfter_closed 0 token closing rest inner after opens found] at level
    intro element member
    rcases List.mem_cons.1 member with rfl | later
    · rfl
    · exact ihAfter level element later
  | case3 token rest opens missing ih =>
    obtain ⟨left, within⟩ := (untilEnd_eq_none_iff 0 rest).1 missing
    have onward := openAfter_add 0 1 left rest [] within
    rw [List.append_nil] at onward
    rw [openAfter_opens 0 token rest opens, onward] at level
    exact absurd (Option.some.inj level) (Nat.succ_ne_zero left)
  | case4 token rest other ih =>
    have notOpen : token.isKeyword ["CASE"] = false := by simpa using other
    rcases Bool.eq_false_or_eq_true (token.isKeyword ["END"]) with closes | notClose
    · rw [openAfter_stray token rest notOpen closes] at level
      cases level
    · have plain := plain_token_iff.2 ⟨notOpen, notClose⟩
      rw [openAfter_plain 0 _ rest plain] at level
      intro element member
      rcases List.mem_cons.1 member with rfl | later
      · exact plain
      · exact ih level element later
  | case5 element rest other ih =>
    have plain : element.isKeyword ["CASE", "END"] = false := by
      cases element with
      | token token => exact absurd rfl (other token)
      | group inner => rfl
      | case inner => rfl
    rw [openAfter_plain 0 element rest plain] at level
    intro element member
    rcases List.mem_cons.1 member with rfl | later
    · exact plain
    · exact ih level element later

theorem isWhole_of_cut {rest inner after operand : List Element} {branches : List (Branch Element)}
    (depth : Nat) (token closing : Token) (found : untilEnd 0 rest = some (inner, closing, after))
    (cut : cutAtWords ["WHEN", "ELSE"] (groupCases depth inner) = (operand, branches)) :
    Case.IsWhole ⟨token, closing, depth, operand, branches⟩ := by
  have level := (openAfter_of_found 0 rest inner after closing found).1
  have plain := plain_of_groupCases depth inner level
  have whole := pieces_cutAt (fun token _ => token.isKeyword ["WHEN", "ELSE"])
    (groupCases depth inner)
  have made : cutAt (fun token _ => token.isKeyword ["WHEN", "ELSE"]) (groupCases depth inner) =
    (operand, branches) := cut
  obtain ⟨head, others⟩ := not_keyword_of_cutAtWords ["WHEN", "ELSE"] (groupCases depth inner)
  rw [cut] at head others
  rw [made] at whole
  refine ⟨fun element member => ?_, fun branch member => (others branch member).1,
    fun branch stands element member => ?_⟩
  · have inRun : element ∈ groupCases depth inner := by
      rw [← whole]
      exact List.mem_append_left _ member
    exact (element.isKeyword_append _ _).trans
      (Bool.or_eq_false_iff.2 ⟨head element member, plain element inRun⟩)
  · have inRun : element ∈ groupCases depth inner := by
      rw [← whole]
      exact List.mem_append_right _
        (List.mem_flatMap.2 ⟨branch, stands, List.mem_cons_of_mem _ member⟩)
    exact (element.isKeyword_append _ _).trans
      (Bool.or_eq_false_iff.2 ⟨(others branch stands).2 element member, plain element inRun⟩)

theorem isWhole_of_groupCases (depth place : Nat) (elements : List Element)
    (ungrouped : Ungrouped elements) :
    ∀ found ∈ placedRun place (groupCases depth elements), found.expression.IsWhole := by
  fun_induction groupCases depth elements generalizing place with
  | case1 => simp [placedRun]
  | case2 token rest opens inner closing after found operand branches cut ihInner ihAfter =>
    have whole := untilEnd_flatten 0 rest inner after closing found
    have freeInner : Ungrouped inner :=
      ungrouped.tail.of_subset (by rw [whole]; exact List.subset_append_left _ _)
    have freeAfter : Ungrouped after :=
      ungrouped.tail.of_subset (by rw [whole]; intro element; simp +contextual)
    intro expression member
    rw [placedRun, placed_case, content_of_cut depth token closing cut] at member
    rcases List.mem_append.1 member with here | later
    · rcases List.mem_append.1 here with inside | self
      · exact ihInner _ freeInner expression inside
      · rw [List.mem_singleton.1 self]
        exact isWhole_of_cut depth token closing found cut
    · exact ihAfter _ freeAfter expression later
  | case3 token rest opens missing ih =>
    rw [placedRun, Element.placed, List.nil_append]
    exact ih _ ungrouped.tail
  | case4 token rest other ih =>
    rw [placedRun, Element.placed, List.nil_append]
    exact ih _ ungrouped.tail
  | case5 element rest other ih =>
    cases element with
    | token token => exact absurd rfl (other token)
    | group inner =>
      rw [placedRun, Element.placed, List.nil_append]
      exact ih _ ungrouped.tail
    | case inner => exact absurd List.mem_cons_self (ungrouped inner)

theorem openAfter_groupCases (depth inner : Nat) (elements : List Element) :
    openAfter inner (groupCases depth elements) = openAfter inner elements := by
  fun_induction groupCases depth elements generalizing inner with
  | case1 => rfl
  | case2 token rest opens before closing after found operand branches cut _ ihAfter =>
    rw [openAfter_closed inner token closing rest before after opens found, ← ihAfter]
    rfl
  | case3 token rest opens missing ih =>
    rw [openAfter_opens inner token _ opens, ih, openAfter_opens inner token _ opens]
  | case4 token rest other ih =>
    have notOpen : token.isKeyword ["CASE"] = false := by simpa using other
    rcases Bool.eq_false_or_eq_true (token.isKeyword ["END"]) with closes | notClose
    · cases inner with
      | zero => rw [openAfter_stray token _ notOpen closes, openAfter_stray token _ notOpen closes]
      | succ inner =>
        rw [openAfter_closes inner token _ notOpen closes, ih,
          openAfter_closes inner token _ notOpen closes]
    · have plain := plain_token_iff.2 ⟨notOpen, notClose⟩
      rw [openAfter_plain inner _ _ plain, ih, openAfter_plain inner _ _ plain]
  | case5 element rest other ih =>
    cases element with
    | token token => exact absurd rfl (other token)
    | group group => exact ih inner
    | case expression => exact ih inner

theorem groupCases_groupCases (depth level : Nat) (elements : List Element) :
    groupCases level (groupCases depth elements) = groupCases depth elements := by
  fun_induction groupCases depth elements with
  | case1 => exact groupCases_nil level
  | case2 token rest opens inner closing after found operand branches cut _ ihAfter =>
    rw [groupCases, ihAfter]
    intro token same
    cases same
  | case3 token rest opens missing ih =>
    rw [groupCases_open level token _ fun _ => ?_, ih]
    rw [untilEnd_eq_none_iff, openAfter_groupCases, ← untilEnd_eq_none_iff]
    exact missing
  | case4 token rest other ih =>
    rw [groupCases_open level token _ fun opens => absurd opens other, ih]
  | case5 element rest other ih =>
    cases element with
    | token token => exact absurd rfl (other token)
    | group inner =>
      rw [groupCases, ih]
      exact other
    | case inner =>
      rw [groupCases, ih]
      exact other

end Grouped

section Places

mutual

theorem Element.placed_within (place : Nat) (element : Element) :
    ∀ found ∈ element.placed place, place ≤ found.opening ∧ found.opening < found.closing ∧
      found.closing < place + element.flat.length := by
  match element with
  | .token _ => simp [Element.placed]
  | .group _ => simp [Element.placed]
  | .case ⟨keyword, closing, depth, operand, branches⟩ =>
    intro found member
    rw [Element.placed] at member
    rw [Element.flat]
    simp only [List.length_cons, List.length_append, List.length_nil]
    rcases List.mem_append.1 member with inside | self
    · rcases List.mem_append.1 inside with inOperand | inBranches
      · have bounds := placedRun_within _ operand found inOperand
        omega
      · have bounds := placedBranches_within _ branches found inBranches
        omega
    · rw [List.mem_singleton.1 self]
      simp only
      omega

theorem placedRun_within (place : Nat) (elements : List Element) :
    ∀ found ∈ placedRun place elements, place ≤ found.opening ∧ found.opening < found.closing ∧
      found.closing < place + (flatRun elements).length := by
  match elements with
  | [] => simp [placedRun]
  | element :: rest =>
    intro found member
    rw [placedRun] at member
    rw [flatRun, List.length_append]
    rcases List.mem_append.1 member with here | later
    · have bounds := Element.placed_within _ element found here
      omega
    · have bounds := placedRun_within _ rest found later
      omega

theorem placedBranches_within (place : Nat) (branches : List (Branch Element)) :
    ∀ found ∈ placedBranches place branches, place ≤ found.opening ∧
      found.opening < found.closing ∧
      found.closing < place + (flatBranches branches).length := by
  match branches with
  | [] => simp [placedBranches]
  | ⟨keyword, elements⟩ :: rest =>
    intro found member
    rw [placedBranches] at member
    rw [flatBranches, List.length_cons, List.length_append]
    rcases List.mem_append.1 member with here | later
    · have bounds := placedRun_within _ elements found here
      omega
    · have bounds := placedBranches_within _ rest found later
      omega

end

theorem not_placed_of_token (front back : List Element) (token : Token) :
    ∀ found ∈ placedRun 0 (front ++ .token token :: back),
      found.opening ≠ (flatRun front).length ∧ found.closing ≠ (flatRun front).length := by
  intro found member
  rw [placedRun_append, placedRun, Element.placed, Element.flat, List.nil_append,
    List.length_singleton] at member
  rcases List.mem_append.1 member with before | behind
  · have bounds := placedRun_within _ front found before
    omega
  · have bounds := placedRun_within _ back found behind
    omega

end Places

/-- Whatever tokens and groups a run is made of, grouping keeps them in their places; the
expressions at all levels are the pairs of a CASE and an END that match; a token that is left in
the run, be it a CASE or an END, is in no such pair, and none of the two is left in an
expression, where WHEN and ELSE begin branches and stand nowhere else; and a second grouping
changes nothing. -/
theorem groupCases_brackets (depth : Nat) (elements : List Element)
    (ungrouped : Ungrouped elements) :
    flatRun (groupCases depth elements) = elements ∧
      (placedRun 0 (groupCases depth elements)).map (fun found =>
        (found.opening, found.closing)) = matchedCases [] 0 elements ∧
      (∀ front token back, groupCases depth elements = front ++ .token token :: back →
        ∀ pair ∈ matchedCases [] 0 elements,
          pair.1 ≠ (flatRun front).length ∧ pair.2 ≠ (flatRun front).length) ∧
      (∀ found ∈ placedRun 0 (groupCases depth elements), found.expression.IsWhole) ∧
      ∀ level, groupCases level (groupCases depth elements) = groupCases depth elements := by
  have pairs := placed_groupCases depth 0 elements ungrouped
  refine ⟨?_, pairs, fun front token back left pair member => ?_,
    isWhole_of_groupCases depth 0 elements ungrouped,
    fun level => groupCases_groupCases depth level elements⟩
  · rw [flatRun_groupCases, ungrouped.flat]
  · rw [← pairs] at member
    obtain ⟨found, stands, rfl⟩ := List.mem_map.1 member
    rw [left] at stands
    exact not_placed_of_token front back token found stands

def tangledCases : List Element :=
  [.token ⟨.reservedWord, "end", 0, "END"⟩, .token ⟨.reservedWord, "case", 4, "CASE"⟩,
    .token (.plain .identifier "x" 9), .token ⟨.reservedWord, "when", 11, "WHEN"⟩,
    .token ⟨.reservedWord, "case", 16, "CASE"⟩, .token ⟨.reservedWord, "end", 21, "END"⟩,
    .token ⟨.reservedWord, "end", 25, "END"⟩, .token ⟨.reservedWord, "case", 29, "CASE"⟩]

theorem groupCases_brackets_tangled :
    Ungrouped tangledCases ∧
      flatRun (groupCases 0 tangledCases) = tangledCases ∧
      (placedRun 0 (groupCases 0 tangledCases)).map (fun found =>
        (found.opening, found.closing)) = [(4, 5), (1, 6)] ∧
      ∀ level, groupCases level (groupCases 0 tangledCases) = groupCases 0 tangledCases := by
  have ungrouped : Ungrouped tangledCases := by simp [Ungrouped, tangledCases]
  obtain ⟨flat, pairs, -, -, again⟩ := groupCases_brackets 0 tangledCases ungrouped
  exact ⟨ungrouped, flat, pairs.trans (by decide), again⟩

end SqlLayout.Tree
