import SqlLayout.Tree.Cutting

/-! CASE expressions. CASE and END match like brackets: each END closes the nearest
CASE before it that is still open. A CASE without its END stays a plain token. -/
namespace SqlLayout.Tree

/-- What stands before the END that closes a CASE, that END, and what stands after it.
`inner` counts the CASEs opened on the way. -/
def untilEnd (inner : Nat) : List Element → Option (List Element × Token × List Element)
  | [] => none
  | element :: rest =>
    let onward (inner : Nat) :=
      (untilEnd inner rest).map fun (before, closing, after) => (element :: before, closing, after)
    match element with
    | .token token =>
      if token.isKeyword ["CASE"] then onward (inner + 1)
      else if token.isKeyword ["END"] then
        match inner with
        | 0 => some ([], token, rest)
        | inner + 1 => onward inner
      else onward inner
    | _ => onward inner

theorem plain_token_iff {token : Token} :
    (Element.token token).isKeyword ["CASE", "END"] = false ↔
      token.isKeyword ["CASE"] = false ∧ token.isKeyword ["END"] = false := by
  have parts := (Element.token token).isKeyword_append ["CASE"] ["END"]
  rw [List.singleton_append] at parts
  rw [parts, Bool.or_eq_false_iff]
  rfl

theorem Element.bracket_cases (element : Element) :
    (∃ token, element = .token token ∧ token.isKeyword ["CASE"] = true) ∨
      (∃ token, element = .token token ∧ token.isKeyword ["CASE"] = false ∧
        token.isKeyword ["END"] = true) ∨
      element.isKeyword ["CASE", "END"] = false := by
  cases element with
  | token token =>
    cases opens : token.isKeyword ["CASE"] with
    | true => exact .inl ⟨token, rfl, opens⟩
    | false =>
      cases closes : token.isKeyword ["END"] with
      | true => exact .inr (.inl ⟨token, rfl, opens, closes⟩)
      | false => exact .inr (.inr (plain_token_iff.2 ⟨opens, closes⟩))
  | group inner => exact .inr (.inr rfl)
  | case inner => exact .inr (.inr rfl)

theorem untilEnd_opens (inner : Nat) (token : Token) (rest : List Element)
    (opens : token.isKeyword ["CASE"] = true) :
    untilEnd inner (.token token :: rest) =
      (untilEnd (inner + 1) rest).map fun (before, closing, after) =>
        (.token token :: before, closing, after) := by
  simp only [untilEnd, opens, if_true]

theorem untilEnd_closes (token : Token) (rest : List Element)
    (notOpen : token.isKeyword ["CASE"] = false) (closes : token.isKeyword ["END"] = true) :
    untilEnd 0 (.token token :: rest) = some ([], token, rest) := by
  simp only [untilEnd, notOpen, closes, if_true, Bool.false_eq_true, if_false]

theorem untilEnd_closes_inner (inner : Nat) (token : Token) (rest : List Element)
    (notOpen : token.isKeyword ["CASE"] = false) (closes : token.isKeyword ["END"] = true) :
    untilEnd (inner + 1) (.token token :: rest) =
      (untilEnd inner rest).map fun (before, closing, after) =>
        (.token token :: before, closing, after) := by
  simp only [untilEnd, notOpen, closes, if_true, Bool.false_eq_true, if_false]

theorem untilEnd_plain (inner : Nat) (element : Element) (rest : List Element)
    (plain : element.isKeyword ["CASE", "END"] = false) :
    untilEnd inner (element :: rest) =
      (untilEnd inner rest).map fun (before, closing, after) =>
        (element :: before, closing, after) := by
  cases element with
  | token token =>
    obtain ⟨notOpen, notClose⟩ := plain_token_iff.1 plain
    simp only [untilEnd, notOpen, notClose, Bool.false_eq_true, if_false]
  | group inner => rfl
  | case inner => rfl

/-- What stands first in a run in which an END is found: a CASE, that END, the END of a CASE on
the way, or something else. -/
theorem untilEnd_cases {inner : Nat} {element : Element} {rest before after : List Element}
    {closing : Token} (found : untilEnd inner (element :: rest) = some (before, closing, after)) :
    (∃ token tail, element = .token token ∧ token.isKeyword ["CASE"] = true ∧
      before = .token token :: tail ∧ untilEnd (inner + 1) rest = some (tail, closing, after)) ∨
    (inner = 0 ∧ element = .token closing ∧ closing.isKeyword ["CASE"] = false ∧
      closing.isKeyword ["END"] = true ∧ before = [] ∧ after = rest) ∨
    (∃ outer token tail, inner = outer + 1 ∧ element = .token token ∧
      token.isKeyword ["CASE"] = false ∧ token.isKeyword ["END"] = true ∧
      before = .token token :: tail ∧ untilEnd outer rest = some (tail, closing, after)) ∨
    ∃ tail, element.isKeyword ["CASE", "END"] = false ∧ before = element :: tail ∧
      untilEnd inner rest = some (tail, closing, after) := by
  have onward (level : Nat)
      (found : (untilEnd level rest).map (fun (before, closing, after) =>
        (element :: before, closing, after)) = some (before, closing, after)) :
      ∃ tail, before = element :: tail ∧ untilEnd level rest = some (tail, closing, after) := by
    obtain ⟨⟨tail, _, _⟩, step, same⟩ := Option.map_eq_some_iff.1 found
    obtain ⟨rfl, rfl, rfl⟩ := by simpa only [Prod.mk.injEq] using same
    exact ⟨tail, rfl, step⟩
  rcases element.bracket_cases with ⟨token, rfl, opens⟩ | ⟨token, rfl, notOpen, closes⟩ | plain
  · rw [untilEnd_opens _ token rest opens] at found
    obtain ⟨tail, rfl, step⟩ := onward _ found
    exact .inl ⟨token, tail, rfl, opens, rfl, step⟩
  · cases inner with
    | zero =>
      rw [untilEnd_closes token rest notOpen closes] at found
      obtain ⟨rfl, rfl, rfl⟩ := by simpa only [Option.some.injEq, Prod.mk.injEq] using found
      exact .inr (.inl ⟨rfl, rfl, notOpen, closes, rfl, rfl⟩)
    | succ outer =>
      rw [untilEnd_closes_inner _ token rest notOpen closes] at found
      obtain ⟨tail, rfl, step⟩ := onward _ found
      exact .inr (.inr (.inl ⟨outer, token, tail, rfl, rfl, notOpen, closes, rfl, step⟩))
  · rw [untilEnd_plain _ element rest plain] at found
    obtain ⟨tail, rfl, step⟩ := onward _ found
    exact .inr (.inr (.inr ⟨tail, plain, rfl, step⟩))

theorem untilEnd_flatten (inner : Nat) (elements before after : List Element) (closing : Token)
    (found : untilEnd inner elements = some (before, closing, after)) :
    elements = before ++ .token closing :: after := by
  induction elements generalizing inner before with
  | nil => simp [untilEnd] at found
  | cons element rest ih =>
    rcases untilEnd_cases found with ⟨token, tail, rfl, -, rfl, step⟩ |
      ⟨rfl, rfl, -, -, rfl, rfl⟩ | ⟨outer, token, tail, rfl, rfl, -, -, rfl, step⟩ |
      ⟨tail, -, rfl, step⟩
    · rw [List.cons_append, ← ih _ tail step]
    · rfl
    · rw [List.cons_append, ← ih _ tail step]
    · rw [List.cons_append, ← ih _ tail step]

theorem length_of_untilEnd (inner : Nat) (elements before after : List Element) (closing : Token)
    (found : untilEnd inner elements = some (before, closing, after)) :
    before.length + after.length + 1 = elements.length := by
  rw [untilEnd_flatten inner elements before after closing found, List.length_append,
    List.length_cons, Nat.add_assoc]

/-- Makes CASE expressions of a run. `depth` is the number of parentheses around it. -/
def groupCases (depth : Nat) (elements : List Element) : List Element :=
  match elements with
  | [] => []
  | .token token :: rest =>
    if token.isKeyword ["CASE"] then
      match _found : untilEnd 0 rest with
      | some (inner, closing, after) =>
        let (operand, branches) := cutAtWords ["WHEN", "ELSE"] (groupCases depth inner)
        .case ⟨token, closing, depth, operand, branches⟩ :: groupCases depth after
      | none => .token token :: groupCases depth rest
    else .token token :: groupCases depth rest
  | other :: rest => other :: groupCases depth rest
termination_by elements.length
decreasing_by
  all_goals simp only [List.length_cons]
  all_goals try have bound := length_of_untilEnd _ _ _ _ _ _found
  all_goals omega

@[simp] theorem groupCases_nil (depth : Nat) : groupCases depth [] = [] := by
  rw [groupCases]

theorem groupCases_closed (depth : Nat) (token closing : Token)
    (rest inner after : List Element) (opens : token.isKeyword ["CASE"] = true)
    (found : untilEnd 0 rest = some (inner, closing, after)) :
    groupCases depth (.token token :: rest) =
      .case ⟨token, closing, depth, (cutAtWords ["WHEN", "ELSE"] (groupCases depth inner)).1,
        (cutAtWords ["WHEN", "ELSE"] (groupCases depth inner)).2⟩ :: groupCases depth after := by
  rw [groupCases, if_pos opens]
  split <;> simp_all

theorem groupCases_open (depth : Nat) (token : Token) (rest : List Element)
    (missing : token.isKeyword ["CASE"] = true → untilEnd 0 rest = none) :
    groupCases depth (.token token :: rest) = .token token :: groupCases depth rest := by
  rw [groupCases]
  split
  · split <;> simp_all
  · rfl

def openCases (elements : List Element) : List Nat :=
  match elements with
  | [] => []
  | .token token :: rest =>
    if token.isKeyword ["CASE"] then
      match _found : untilEnd 0 rest with
      | some (_, _, after) => openCases after
      | none => token.start :: openCases rest
    else openCases rest
  | _ :: rest => openCases rest
termination_by elements.length
decreasing_by
  all_goals simp only [List.length_cons]
  all_goals try have bound := length_of_untilEnd _ _ _ _ _ _found
  all_goals omega

end SqlLayout.Tree
