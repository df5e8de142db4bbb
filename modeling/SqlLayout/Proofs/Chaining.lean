import SqlLayout.Proofs.Pieces

/-! Chains of conditions. The flag of a cut says that a BETWEEN still waits for its AND. It is
down at the front of a chain; a conjunct puts it up at each of its BETWEENs and down again at
the AND that belongs to it, so that it is down before the next connector. Whatever chain is
written out is therefore cut into the same conditions. -/
namespace SqlLayout.Tree

def IsPlain (run : List Element) : Prop :=
  ∀ element ∈ run, element.isKeyword ["AND", "OR", "BETWEEN"] = false

/-- A plain run, then any number of times BETWEEN and two plain runs with AND between them. -/
inductive IsConjunct : List Element → Prop
  | plain {run : List Element} (isPlain : IsPlain run) : IsConjunct run
  | between {front low high : List Element} {between conjunction : Token}
      (before : IsConjunct front) (isBetween : between.isKeyword ["BETWEEN"] = true)
      (lowPlain : IsPlain low) (isAnd : conjunction.isKeyword ["AND"] = true)
      (highPlain : IsPlain high) :
      IsConjunct (front ++ .token between :: (low ++ .token conjunction :: high))

abbrev Link : Type :=
  Token × List Element

def Link.pieces (link : Link) : List Element :=
  .token link.1 :: link.2

def Link.IsSound (link : Link) : Prop :=
  link.1.isKeyword ["AND", "OR"] = true ∧ IsConjunct link.2

variable {waits : Bool}

theorem cutConditions_plain (run rest : List Element) (isPlain : IsPlain run) :
    cutConditions waits (run ++ rest) =
      (run ++ (cutConditions waits rest).1, (cutConditions waits rest).2) := by
  induction run with
  | nil => rfl
  | cons element run ih =>
    obtain ⟨noConnector, notBetween⟩ := Bool.or_eq_false_iff.1
      ((element.isKeyword_append ["AND", "OR"] _).symm.trans (isPlain element List.mem_cons_self))
    have onward := ih fun other member => isPlain other (List.mem_cons_of_mem element member)
    rw [List.cons_append]
    simp only [cutConditions, noConnector, notBetween, Bool.or_false, Bool.false_eq_true, if_false,
      onward]
    rfl

theorem cutConditions_between (between : Token) (rest : List Element)
    (isBetween : between.isKeyword ["BETWEEN"] = true) :
    cutConditions waits (.token between :: rest) =
      (.token between :: (cutConditions true rest).1, (cutConditions true rest).2) := by
  have noConnector : (Element.token between).isKeyword ["AND", "OR"] = false := by
    simp_all [Element.isKeyword, Element.isTokenWith, Element.token?, Token.isKeyword]
  have flagged : (Element.token between).isKeyword ["BETWEEN"] = true := isBetween
  simp only [cutConditions, noConnector, flagged, Bool.or_true, Bool.false_eq_true, if_false]

/-- The AND that a BETWEEN waits for opens no condition. -/
theorem cutConditions_awaited (conjunction : Token) (rest : List Element)
    (isAnd : conjunction.isKeyword ["AND"] = true) :
    cutConditions true (.token conjunction :: rest) =
      (.token conjunction :: (cutConditions false rest).1, (cutConditions false rest).2) := by
  have connector : (Element.token conjunction).isKeyword ["AND", "OR"] = true := by
    simp_all [Element.isKeyword, Element.isTokenWith, Element.token?, Token.isKeyword]
  have awaited : (Element.token conjunction).isKeyword ["AND"] = true := isAnd
  simp only [cutConditions, connector, awaited, Bool.and_self, if_true]

theorem cutConditions_connector (connector : Token) (rest : List Element)
    (isConnector : connector.isKeyword ["AND", "OR"] = true) :
    cutConditions false (.token connector :: rest) =
      ([], ⟨some connector, (cutConditions false rest).1⟩ :: (cutConditions false rest).2) := by
  have opens : (Element.token connector).isKeyword ["AND", "OR"] = true := isConnector
  simp only [cutConditions, opens, Bool.false_and, Bool.false_eq_true, if_false, if_true]
  rfl

theorem cutConditions_conjunct (conjunct rest : List Element) (isConjunct : IsConjunct conjunct) :
    cutConditions false (conjunct ++ rest) =
      (conjunct ++ (cutConditions false rest).1, (cutConditions false rest).2) := by
  induction isConjunct generalizing rest with
  | plain isPlain => exact cutConditions_plain _ rest isPlain
  | between _ isBetween lowPlain isAnd highPlain ih =>
    simp only [List.append_assoc, List.cons_append]
    rw [ih, cutConditions_between _ _ isBetween, cutConditions_plain _ _ lowPlain,
      cutConditions_awaited _ _ isAnd, cutConditions_plain _ _ highPlain]

theorem cutConditions_chain (head : List Element) (chain : List Link) (isHead : IsConjunct head)
    (sound : ∀ link ∈ chain, link.IsSound) :
    cutConditions false (head ++ chain.flatMap Link.pieces) =
      (head, chain.map fun link => ⟨some link.1, link.2⟩) := by
  rw [cutConditions_conjunct head _ isHead]
  induction chain generalizing head with
  | nil => simp
  | cons link chain ih =>
    obtain ⟨isConnector, isConjunct⟩ := sound link List.mem_cons_self
    have onward := ih link.2 isConjunct fun other member =>
      sound other (List.mem_cons_of_mem link member)
    rw [List.flatMap_cons, Link.pieces, List.cons_append,
      cutConditions_connector _ _ isConnector, cutConditions_conjunct _ _ isConjunct, onward,
      List.append_nil]
    rfl

theorem conditionsAfter_chain (keyword : Token) (head : List Element) (chain : List Link)
    (isHead : IsConjunct head) (sound : ∀ link ∈ chain, link.IsSound) :
    conditionsAfter keyword (head ++ chain.flatMap Link.pieces) =
      ⟨some keyword, head⟩ :: chain.map fun link => ⟨some link.1, link.2⟩ := by
  rw [conditionsAfter, cutConditions_chain head chain isHead sound]

/-- A chain that is written out and is not empty is cut into the conditions that it was made
of; and the conditions of any run at all, written out, are the run. -/
theorem splitConditions_chain :
    (∀ (head : List Element) (chain : List Link), IsConjunct head →
      (∀ link ∈ chain, link.IsSound) → head ++ chain.flatMap Link.pieces ≠ [] →
      splitConditions (head ++ chain.flatMap Link.pieces) =
        ⟨none, head⟩ :: chain.map fun link => ⟨some link.1, link.2⟩) ∧
      ∀ elements, (splitConditions elements).flatMap Condition.pieces = elements := by
  refine ⟨fun head chain isHead sound filled => ?_, pieces_splitConditions⟩
  rw [splitConditions, if_neg (by rwa [List.isEmpty_iff]),
    cutConditions_chain head chain isHead sound]

def boundedChain : List Link :=
  [(⟨.reservedWord, "and", 0, "AND"⟩,
      [.token (.plain .identifier "a" 4), .token ⟨.reservedWord, "between", 6, "BETWEEN"⟩,
        .token (.plain .identifier "b" 14), .token ⟨.reservedWord, "and", 16, "AND"⟩,
        .token (.plain .identifier "c" 20)]),
    (⟨.reservedWord, "or", 22, "OR"⟩, [.token (.plain .identifier "d" 25)])]

theorem splitConditions_chain_bounded :
    IsConjunct [] ∧ (∀ link ∈ boundedChain, link.IsSound) ∧
      [] ++ boundedChain.flatMap Link.pieces ≠ [] ∧
      splitConditions (boundedChain.flatMap Link.pieces) =
        ⟨none, []⟩ :: boundedChain.map fun link => ⟨some link.1, link.2⟩ := by
  have nothing : IsConjunct [] := .plain (by simp [IsPlain])
  have name (token : Token) (isName : token.kind = .identifier) : IsPlain [.token token] := by
    simp [IsPlain, Element.isKeyword, Element.isTokenWith, Element.token?, Token.isKeyword,
      Token.isReserved, isName]
  have sound : ∀ link ∈ boundedChain, link.IsSound := by
    simp only [boundedChain, List.forall_mem_cons, List.not_mem_nil, false_implies, implies_true,
      and_true]
    refine ⟨⟨by decide, ?_⟩, by decide, .plain (name _ rfl)⟩
    exact .between (.plain (name _ rfl)) (by decide) (name _ rfl) (by decide) (name _ rfl)
  have filled : [] ++ boundedChain.flatMap Link.pieces ≠ [] := by simp [boundedChain, Link.pieces]
  exact ⟨nothing, sound, filled, splitConditions_chain.1 [] boundedChain nothing sound filled⟩

end SqlLayout.Tree
