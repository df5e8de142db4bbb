import Mathlib.Data.Set.Card
import SqlLayout.Proofs.Conservation

/-! Which parentheses of a list of tokens match. Two of them do if what is between them is
balanced, that is, opens as many as it closes and closes none that it has not opened. Reading
the tokens from the left gives the same pairs, one inside the other or one behind the other,
with the number of pairs around each. -/
namespace SqlLayout.Tree

def opens (tokens : List Token) : Nat :=
  tokens.countP fun token => token.kind = .parenOpen

def closes (tokens : List Token) : Nat :=
  tokens.countP fun token => token.kind = .parenClose

@[simp] theorem opens_append (first second : List Token) :
    opens (first ++ second) = opens first + opens second :=
  List.countP_append

@[simp] theorem closes_append (first second : List Token) :
    closes (first ++ second) = closes first + closes second :=
  List.countP_append

theorem opens_cons (token : Token) (rest : List Token) :
    opens (token :: rest) = opens rest + if token.kind = .parenOpen then 1 else 0 := by
  simp [opens, List.countP_cons]

theorem closes_cons (token : Token) (rest : List Token) :
    closes (token :: rest) = closes rest + if token.kind = .parenClose then 1 else 0 := by
  simp [closes, List.countP_cons]

theorem opens_concat (read : List Token) (token : Token) :
    opens (read ++ [token]) = opens read + if token.kind = .parenOpen then 1 else 0 := by
  simp [opens, List.countP_cons]

theorem closes_concat (read : List Token) (token : Token) :
    closes (read ++ [token]) = closes read + if token.kind = .parenClose then 1 else 0 := by
  simp [closes, List.countP_cons]

/-- No parenthesis is closed that has not been opened before, and none stays open. -/
def Balanced (tokens : List Token) : Prop :=
  (∀ front, front <+: tokens → closes front ≤ opens front) ∧ opens tokens = closes tokens

instance (tokens : List Token) : Decidable (Balanced tokens) :=
  decidable_of_iff
    ((∀ front ∈ tokens.inits, closes front ≤ opens front) ∧ opens tokens = closes tokens)
    (by simp only [List.mem_inits, Balanced])

def IsPair (tokens : List Token) (opening closing : Token) : Prop :=
  opening.kind = .parenOpen ∧ closing.kind = .parenClose ∧
    ∃ before inside after, tokens = before ++ opening :: (inside ++ closing :: after) ∧
      Balanced inside

/-- The pairs around what starts at one token and ends at another. -/
def pairsAround (tokens : List Token) (opening closing : Token) : Set (Token × Token) :=
  {pair | IsPair tokens pair.1 pair.2 ∧ pair.1.start < opening.start ∧
    closing.start < pair.2.start}

theorem finite_pairsAround (tokens : List Token) (opening closing : Token) :
    (pairsAround tokens opening closing).Finite := by
  refine (tokens.finite_toSet.prod tokens.finite_toSet).subset ?_
  rintro ⟨one, two⟩ ⟨⟨-, -, before, inside, after, rfl, -⟩, -⟩
  constructor
  · show one ∈ _
    simp
  · show two ∈ _
    simp

namespace Balanced

theorem append {first second : List Token} (front : Balanced first) (rest : Balanced second) :
    Balanced (first ++ second) := by
  refine ⟨fun part isPrefix => ?_, ?_⟩
  · obtain ⟨left, whole⟩ := isPrefix
    rcases List.append_eq_append_iff.1 whole with ⟨more, rfl, -⟩ | ⟨more, rfl, rfl⟩
    · exact front.1 part ⟨more, rfl⟩
    · have onward := rest.1 more ⟨left, rfl⟩
      have same := front.2
      rw [opens_append, closes_append]
      omega
  · have one := front.2
    have two := rest.2
    rw [opens_append, closes_append]
    omega

theorem nil : Balanced [] := by
  refine ⟨fun front isPrefix => ?_, rfl⟩
  rw [List.prefix_nil.1 isPrefix]
  exact Nat.le_refl 0

theorem token (token : Token) (notOpen : token.kind ≠ .parenOpen)
    (notClose : token.kind ≠ .parenClose) : Balanced [token] := by
  refine ⟨fun front isPrefix => ?_, by simp [opens, closes, notOpen, notClose]⟩
  obtain rfl | ⟨rest, rfl, within⟩ := List.prefix_cons_iff.1 isPrefix
  · exact Nat.le_refl 0
  · rw [List.prefix_nil.1 within]
    simp [closes, notClose]

theorem enclose {inside : List Token} (balanced : Balanced inside) (opening closing : Token)
    (isOpen : opening.kind = .parenOpen) (isClose : closing.kind = .parenClose) :
    Balanced (opening :: (inside ++ [closing])) := by
  have opened : opens [opening] = 1 ∧ closes [opening] = 0 := by simp [opens, closes, isOpen]
  have closed : opens [closing] = 0 ∧ closes [closing] = 1 := by simp [opens, closes, isClose]
  have same := balanced.2
  refine ⟨fun front isPrefix => ?_, ?_⟩
  · obtain rfl | ⟨part, rfl, within⟩ := List.prefix_cons_iff.1 isPrefix
    · exact Nat.le_refl 0
    rw [List.prefix_concat_iff] at within
    rw [← List.singleton_append, opens_append, closes_append]
    rcases within with rfl | before
    · rw [opens_append, closes_append]
      omega
    · have onward := balanced.1 part before
      omega
  · rw [← List.singleton_append]
    simp only [opens_append, closes_append]
    omega

theorem not_closed {front rest : List Token} {closing : Token}
    (balanced : Balanced (front ++ closing :: rest)) (whole : Balanced front)
    (isClose : closing.kind = .parenClose) : False := by
  have bound := balanced.1 (front ++ [closing]) ⟨rest, by simp⟩
  have closed : opens [closing] = 0 ∧ closes [closing] = 1 := by simp [opens, closes, isClose]
  have same := whole.2
  rw [opens_append, closes_append] at bound
  omega

theorem eq_of_closed {first second after rest : List Token} {one two : Token}
    (balanced : Balanced first) (other : Balanced second) (isClose : one.kind = .parenClose)
    (closes : two.kind = .parenClose) (same : first ++ one :: after = second ++ two :: rest) :
    first = second ∧ one = two ∧ after = rest := by
  rcases List.append_eq_append_iff.1 same with ⟨more, rfl, behind⟩ | ⟨more, rfl, behind⟩
  · cases more with
    | nil => simpa using behind
    | cons token more =>
      obtain ⟨rfl, -⟩ := List.cons.inj behind
      exact (other.not_closed balanced isClose).elim
  · cases more with
    | nil => simpa [eq_comm] using behind
    | cons token more =>
      obtain ⟨rfl, -⟩ := List.cons.inj behind
      exact (balanced.not_closed other closes).elim

theorem closes_behind {front rest : List Token} {opening : Token}
    (balanced : Balanced (front ++ opening :: rest)) (isOpen : opening.kind = .parenOpen) :
    opens rest < closes rest := by
  have bound := balanced.1 front ⟨opening :: rest, rfl⟩
  have same := balanced.2
  rw [opens_append, closes_append, opens_cons, closes_cons, if_pos isOpen,
    if_neg (by simp [isOpen])] at same
  omega

end Balanced

structure Span where
  opening : Token
  closing : Token
  depth : Nat
  tokens : Set Token

def Span.surrounds (outer inner : Span) : Bool :=
  outer.opening.start < inner.opening.start && inner.closing.start < outer.closing.start

/-- Tokens at some depth, with the pairs among them from left to right. -/
inductive Nest : Nat → List Token → List Span → Prop
  | nil (depth : Nat) : Nest depth [] []
  | token {depth : Nat} {rest : List Token} {spans : List Span} (token : Token)
      (notOpen : token.kind ≠ .parenOpen) (notClose : token.kind ≠ .parenClose)
      (behind : Nest depth rest spans) : Nest depth (token :: rest) spans
  | pair {depth : Nat} {inside rest : List Token} {inner outer : List Span}
      (opening closing : Token) (isOpen : opening.kind = .parenOpen)
      (isClose : closing.kind = .parenClose) (within : Nest (depth + 1) inside inner)
      (behind : Nest depth rest outer) :
      Nest depth (opening :: (inside ++ closing :: rest))
        (⟨opening, closing, depth, {token | token ∈ opening :: (inside ++ [closing])}⟩ ::
          (inner ++ outer))

namespace Nest

variable {depth : Nat} {tokens others : List Token} {spans more : List Span}

theorem append (front : Nest depth tokens spans) (rest : Nest depth others more) :
    Nest depth (tokens ++ others) (spans ++ more) := by
  induction front with
  | nil => exact rest
  | token token notOpen notClose _ ih => exact .token token notOpen notClose (ih rest)
  | pair opening closing isOpen isClose within _ _ ih =>
    have whole := Nest.pair opening closing isOpen isClose within (ih rest)
    simpa only [List.cons_append, List.append_assoc] using whole

theorem balanced (nest : Nest depth tokens spans) : Balanced tokens := by
  induction nest with
  | nil => exact .nil
  | token token notOpen notClose _ ih => exact (Balanced.token token notOpen notClose).append ih
  | pair opening closing isOpen isClose _ _ within behind =>
    have whole := (within.enclose opening closing isOpen isClose).append behind
    simpa only [List.cons_append, List.append_assoc, List.nil_append] using whole

theorem exists_between (nest : Nest depth tokens spans) (span : Span) (member : span ∈ spans) :
    span.opening.kind = .parenOpen ∧ span.closing.kind = .parenClose ∧
      ∃ before inside after,
        tokens = before ++ span.opening :: (inside ++ span.closing :: after) ∧
        Balanced inside ∧
        span.tokens = {token | token ∈ span.opening :: (inside ++ [span.closing])} := by
  induction nest with
  | nil => simp at member
  | token token notOpen notClose _ ih =>
    obtain ⟨isOpen, isClose, before, inside, after, rfl, rest⟩ := ih member
    exact ⟨isOpen, isClose, token :: before, inside, after, rfl, rest⟩
  | @pair _ inside rest _ _ opening closing isOpen isClose within _ ihInner ihOuter =>
    rcases List.mem_cons.1 member with rfl | later
    · exact ⟨isOpen, isClose, [], inside, rest, rfl, within.balanced, rfl⟩
    · rcases List.mem_append.1 later with inInner | inOuter
      · obtain ⟨opens, closes, before, between, after, rfl, found⟩ := ihInner inInner
        refine ⟨opens, closes, opening :: before, between, after ++ closing :: rest, ?_, found⟩
        simp only [List.cons_append, List.append_assoc]
      · obtain ⟨opens, closes, before, between, after, rfl, found⟩ := ihOuter inOuter
        refine ⟨opens, closes, opening :: (inside ++ closing :: before), between, after, ?_, found⟩
        simp only [List.cons_append, List.append_assoc]

theorem isPair (nest : Nest depth tokens spans) (span : Span) (member : span ∈ spans) :
    IsPair tokens span.opening span.closing := by
  obtain ⟨isOpen, isClose, before, inside, after, whole, balanced, -⟩ :=
    nest.exists_between span member
  exact ⟨isOpen, isClose, before, inside, after, whole, balanced⟩

theorem exists_span (nest : Nest depth tokens spans) (opening closing : Token)
    (pair : IsPair tokens opening closing) :
    ∃ span ∈ spans, span.opening = opening ∧ span.closing = closing := by
  obtain ⟨isOpen, isClose, before, between, after, whole, balanced⟩ := pair
  induction nest generalizing before after with
  | nil => simp at whole
  | token token notOpen notClose _ ih =>
    cases before with
    | nil =>
      obtain ⟨rfl, -⟩ := List.cons.inj whole
      exact absurd isOpen notOpen
    | cons _ before => exact ih before after (List.cons.inj whole).2
  | @pair _ inside rest inner outer first last firstOpens lastCloses within behind ihInner
      ihOuter =>
    cases before with
    | nil =>
      obtain ⟨rfl, others⟩ := List.cons.inj whole
      obtain ⟨-, rfl, -⟩ := within.balanced.eq_of_closed balanced lastCloses isClose others
      exact ⟨_, List.mem_cons_self, rfl, rfl⟩
    | cons _ before =>
      have others := (List.cons.inj whole).2
      -- The pair opens before the last parenthesis of the first pair, or behind it.
      rcases List.append_eq_append_iff.1 others with ⟨left, rfl, found⟩ | ⟨left, rfl, found⟩
      · cases left with
        | nil =>
          obtain ⟨rfl, -⟩ := List.cons.inj found
          simp [isOpen] at lastCloses
        | cons _ left =>
          obtain ⟨rfl, later⟩ := List.cons.inj found
          obtain ⟨span, member, same⟩ := ihOuter left after later
          exact ⟨span, List.mem_cons_of_mem _ (List.mem_append_right _ member), same⟩
      · cases left with
        | nil =>
          obtain ⟨rfl, -⟩ := List.cons.inj found
          simp [isOpen] at lastCloses
        | cons _ left =>
          obtain ⟨rfl, later⟩ := List.cons.inj found
          have short := within.balanced.closes_behind isOpen
          rcases List.append_eq_append_iff.1 later with ⟨z, rfl, here⟩ | ⟨z, rfl, here⟩
          · cases z with
            | nil =>
              obtain ⟨rfl, -⟩ := List.cons.inj here
              have same := balanced.2
              rw [List.append_nil] at short
              omega
            | cons _ z =>
              obtain ⟨rfl, rfl⟩ := List.cons.inj here
              obtain ⟨span, member, same⟩ := ihInner before z rfl
              exact ⟨span, List.mem_cons_of_mem _ (List.mem_append_left _ member), same⟩
          · have bound := balanced.1 left ⟨z, rfl⟩
            omega

theorem mem_tokens (nest : Nest depth tokens spans) (span : Span) (member : span ∈ spans) :
    span.opening ∈ tokens ∧ span.closing ∈ tokens := by
  obtain ⟨-, -, before, inside, after, rfl, -⟩ := nest.exists_between span member
  simp

theorem start_of_pair {inside rest : List Token} {inner outer : List Span}
    {opening closing : Token} (within : Nest (depth + 1) inside inner)
    (behind : Nest depth rest outer)
    (ascending : Ascending (opening :: (inside ++ closing :: rest))) :
    opening.start < closing.start ∧
      (∀ span ∈ inner, opening.start < span.opening.start ∧ span.opening.start < closing.start ∧
        span.closing.start < closing.start) ∧
      ∀ span ∈ outer, closing.start < span.opening.start ∧ closing.start < span.closing.start := by
  obtain ⟨first, others⟩ := List.pairwise_cons.1 ascending
  obtain ⟨-, last, across⟩ := List.pairwise_append.1 others
  refine ⟨first closing (by simp), fun span member => ?_, fun span member => ?_⟩
  · obtain ⟨opens, closes⟩ := within.mem_tokens span member
    exact ⟨first _ (List.mem_append_left _ opens), across _ opens closing List.mem_cons_self,
      across _ closes closing List.mem_cons_self⟩
  · obtain ⟨opens, closes⟩ := behind.mem_tokens span member
    have later := (List.pairwise_cons.1 last).1
    exact ⟨later _ opens, later _ closes⟩

theorem ascending_parts {inside rest : List Token} {opening closing : Token}
    (ascending : Ascending (opening :: (inside ++ closing :: rest))) :
    Ascending inside ∧ Ascending rest := by
  obtain ⟨front, behind, -⟩ := List.pairwise_append.1 (List.pairwise_cons.1 ascending).2
  exact ⟨front, (List.pairwise_cons.1 behind).2⟩

theorem ordered (nest : Nest depth tokens spans) (ascending : Ascending tokens) :
    spans.Pairwise fun first second => first.opening.start < second.opening.start := by
  induction nest with
  | nil => exact List.Pairwise.nil
  | token _ _ _ _ ih => exact ih (List.pairwise_cons.1 ascending).2
  | pair opening closing _ _ within behind ihInner ihOuter =>
    obtain ⟨first, inside, after⟩ := start_of_pair within behind ascending
    obtain ⟨ascendingInner, ascendingOuter⟩ := ascending_parts ascending
    refine List.pairwise_cons.2 ⟨fun span member => ?_, List.pairwise_append.2
      ⟨ihInner ascendingInner, ihOuter ascendingOuter, fun one inInner two inOuter => ?_⟩⟩
    · rcases List.mem_append.1 member with inInner | inOuter
      · exact (inside span inInner).1
      · exact Nat.lt_trans first (after span inOuter).1
    · exact Nat.lt_trans (inside one inInner).2.1 (after two inOuter).1

/-- What opens later than a pair starts or closes before it ends is not around it. -/
theorem countP_surrounds_eq_zero (spans : List Span) (inner : Span)
    (outside : ∀ other ∈ spans, inner.opening.start ≤ other.opening.start ∨
      other.closing.start ≤ inner.closing.start) : spans.countP (·.surrounds inner) = 0 := by
  refine List.countP_eq_zero.2 fun other member => ?_
  have bound := outside other member
  simp only [Span.surrounds, Bool.and_eq_true, decide_eq_true_eq]
  omega

section

variable {inside rest : List Token} {inner outer : List Span} {opening closing : Token}
  (within : Nest (depth + 1) inside inner) (behind : Nest depth rest outer)
  (ascending : Ascending (opening :: (inside ++ closing :: rest))) (level : Nat)
  (between : Set Token) (span : Span)
include within behind ascending

theorem countP_surrounds_inside (starts : opening.start < span.opening.start ∧
      span.opening.start < closing.start ∧ span.closing.start < closing.start) :
    (⟨opening, closing, level, between⟩ :: (inner ++ outer)).countP (·.surrounds span) =
      inner.countP (·.surrounds span) + 1 := by
  have after := (start_of_pair within behind ascending).2.2
  rw [List.countP_cons, List.countP_append, countP_surrounds_eq_zero outer, if_pos]
  · simpa only [Span.surrounds, Bool.and_eq_true, decide_eq_true_eq] using
      ⟨starts.1, starts.2.2⟩
  · intro other found
    exact .inl (Nat.le_of_lt (Nat.lt_trans starts.2.1 (after other found).1))

theorem countP_surrounds_behind
    (starts : closing.start < span.opening.start ∧ closing.start < span.closing.start) :
    (⟨opening, closing, level, between⟩ :: (inner ++ outer)).countP (·.surrounds span) =
      outer.countP (·.surrounds span) := by
  have before := (start_of_pair within behind ascending).2.1
  rw [List.countP_cons, List.countP_append, countP_surrounds_eq_zero inner, if_neg]
  · omega
  · simp only [Span.surrounds, Bool.and_eq_true, decide_eq_true_eq]
    omega
  · intro other found
    exact .inr (Nat.le_of_lt (Nat.lt_trans (before other found).2.2 starts.2))

end

theorem depth_eq (nest : Nest depth tokens spans) (ascending : Ascending tokens) (span : Span)
    (member : span ∈ spans) : span.depth = depth + spans.countP (·.surrounds span) := by
  induction nest with
  | nil => simp at member
  | token _ _ _ _ ih => exact ih (List.pairwise_cons.1 ascending).2 member
  | @pair depth _ _ inner outer opening closing _ _ within behind ihInner ihOuter =>
    obtain ⟨first, inside, after⟩ := start_of_pair within behind ascending
    obtain ⟨ascendingInner, ascendingOuter⟩ := ascending_parts ascending
    rcases List.mem_cons.1 member with rfl | later
    · rw [countP_surrounds_eq_zero, Nat.add_zero]
      intro other found
      rcases List.mem_cons.1 found with rfl | more
      · exact .inl (Nat.le_refl _)
      · rcases List.mem_append.1 more with inInner | inOuter
        · exact .inl (Nat.le_of_lt (inside other inInner).1)
        · exact .inl (Nat.le_of_lt (Nat.lt_trans first (after other inOuter).1))
    · rcases List.mem_append.1 later with inInner | inOuter
      · rw [countP_surrounds_inside within behind ascending _ _ span (inside span inInner),
          ihInner ascendingInner inInner]
        omega
      · rw [countP_surrounds_behind within behind ascending _ _ span (after span inOuter),
          ihOuter ascendingOuter inOuter]

theorem ncard_pairsAround (nest : Nest depth tokens spans) (ascending : Ascending tokens)
    (inner : Span) : (pairsAround tokens inner.opening inner.closing).ncard =
      spans.countP (·.surrounds inner) := by
  let pairs := (spans.filter (·.surrounds inner)).map fun other => (other.opening, other.closing)
  have found : pairsAround tokens inner.opening inner.closing = pairs.toFinset := by
    ext ⟨opening, closing⟩
    simp only [pairsAround, Set.mem_ofPred_eq, pairs, List.coe_toFinset, List.mem_map,
      Prod.mk.injEq, List.mem_filter, Span.surrounds, Bool.and_eq_true, decide_eq_true_eq]
    constructor
    · rintro ⟨pair, around⟩
      obtain ⟨other, inside, rfl, rfl⟩ := nest.exists_span opening closing pair
      exact ⟨other, ⟨inside, around⟩, rfl, rfl⟩
    · rintro ⟨other, ⟨inside, around⟩, rfl, rfl⟩
      exact ⟨nest.isPair other inside, around⟩
  have distinct : pairs.Nodup := by
    refine List.pairwise_map.2 (((nest.ordered ascending).filter _).imp fun less same => ?_)
    rw [(Prod.mk.inj same).1] at less
    exact Nat.lt_irrefl _ less
  rw [found, Set.ncard_coe_finset, List.toFinset_card_of_nodup distinct, List.length_map,
    List.countP_eq_length_filter]

/-- So the depth of a pair in a text is the number of pairs of the text around it. -/
theorem depth_eq_ncard (nest : Nest 0 tokens spans) (ascending : Ascending tokens) (span : Span)
    (member : span ∈ spans) :
    span.depth = (pairsAround tokens span.opening span.closing).ncard := by
  rw [nest.depth_eq ascending span member, nest.ncard_pairsAround ascending, Nat.zero_add]

end Nest

section Filtering

variable {property : Token → Bool}

theorem exists_of_filter (tokens before inside after : List Token) (opening closing : Token)
    (whole : tokens.filter property = before ++ opening :: (inside ++ closing :: after)) :
    ∃ front between rest, tokens = front ++ opening :: (between ++ closing :: rest) ∧
      front.filter property = before ∧ between.filter property = inside ∧
      rest.filter property = after := by
  obtain ⟨front, others, rfl, rfl, opened⟩ := List.filter_eq_append_iff.1 whole
  obtain ⟨gap, more, rfl, hidden, -, behind⟩ := List.filter_eq_cons_iff.1 opened
  obtain ⟨between, last, rfl, rfl, closed⟩ := List.filter_eq_append_iff.1 behind
  obtain ⟨space, rest, rfl, missing, -, rfl⟩ := List.filter_eq_cons_iff.1 closed
  have nothing (tokens : List Token) (absent : ∀ token ∈ tokens, ¬property token = true) :
      tokens.filter property = [] := List.filter_eq_nil_iff.2 absent
  refine ⟨front ++ gap, between ++ space, rest, by simp only [List.append_assoc],
    ?_, ?_, rfl⟩
  · rw [List.filter_append, nothing gap hidden, List.append_nil]
  · rw [List.filter_append, nothing space missing, List.append_nil]

variable (keeps : ∀ token : Token,
  token.kind = .parenOpen ∨ token.kind = .parenClose → property token = true)
include keeps

theorem opens_filter (tokens : List Token) : opens (tokens.filter property) = opens tokens := by
  rw [opens, opens, List.countP_filter]
  refine List.countP_congr fun token _ => ?_
  have kept := keeps token
  simp only [Bool.and_eq_true, decide_eq_true_eq]
  grind

theorem closes_filter (tokens : List Token) : closes (tokens.filter property) = closes tokens := by
  rw [closes, closes, List.countP_filter]
  refine List.countP_congr fun token _ => ?_
  have kept := keeps token
  simp only [Bool.and_eq_true, decide_eq_true_eq]
  grind

theorem balanced_filter (tokens : List Token) :
    Balanced (tokens.filter property) ↔ Balanced tokens := by
  unfold Balanced
  rw [opens_filter keeps, closes_filter keeps]
  refine and_congr_left fun _ => ⟨fun bound front isPrefix => ?_, fun bound front isPrefix => ?_⟩
  · rw [← opens_filter keeps, ← closes_filter keeps]
    exact bound _ (isPrefix.filter property)
  · obtain ⟨rest, whole⟩ := isPrefix
    obtain ⟨part, others, rfl, rfl, -⟩ := List.filter_eq_append_iff.1 whole.symm
    rw [opens_filter keeps, closes_filter keeps]
    exact bound part ⟨others, rfl⟩

theorem isPair_filter (tokens : List Token) (opening closing : Token) :
    IsPair (tokens.filter property) opening closing ↔ IsPair tokens opening closing := by
  refine and_congr_right fun isOpen => and_congr_right fun isClose => ⟨?_, ?_⟩
  · rintro ⟨before, inside, after, whole, balanced⟩
    obtain ⟨front, between, rest, rfl, -, rfl, -⟩ := exists_of_filter _ _ _ _ _ _ whole
    exact ⟨front, between, rest, rfl, (balanced_filter keeps between).1 balanced⟩
  · rintro ⟨before, inside, after, rfl, balanced⟩
    refine ⟨before.filter property, inside.filter property, after.filter property, ?_,
      (balanced_filter keeps inside).2 balanced⟩
    rw [List.filter_append, List.filter_cons_of_pos (keeps opening (.inl isOpen)),
      List.filter_append, List.filter_cons_of_pos (keeps closing (.inr isClose))]

end Filtering

theorem exists_semicolons (tokens : List Token) :
    ∃ semicolons, tokens.filter (!·.isBlank) = countedTokens tokens ++ semicolons ∧
      ∀ token ∈ semicolons, token.kind = .semicolon := by
  have parts := congrArg List.reverse (List.takeWhile_append_dropWhile
    (p := fun token : Token => token.kind = .semicolon)
    (l := (tokens.filter (!·.isBlank)).reverse))
  rw [List.reverse_append, List.reverse_reverse] at parts
  refine ⟨_, parts.symm, fun token member => ?_⟩
  rw [List.mem_reverse] at member
  simpa using List.all_eq_true.1 List.all_takeWhile token member

theorem filter_countedTokens (property : Token → Bool)
    (solid : ∀ token, property token = true → token.isBlank = false ∧ token.kind ≠ .semicolon)
    (tokens : List Token) : (countedTokens tokens).filter property = tokens.filter property := by
  obtain ⟨semicolons, whole, ends⟩ := exists_semicolons tokens
  have nothing : semicolons.filter property = [] :=
    List.filter_eq_nil_iff.2 fun token member found => (solid token found).2 (ends token member)
  have kept := congrArg (List.filter property) whole
  rw [List.filter_filter, List.filter_append, nothing, List.append_nil] at kept
  rw [← kept]
  refine List.filter_congr fun token _ => ?_
  cases found : property token with
  | false => rfl
  | true => simp [(solid token found).1]

def isParen (token : Token) : Bool :=
  token.kind = .parenOpen || token.kind = .parenClose

theorem filter_isParen_counted (tokens : List Token) :
    (countedTokens tokens).filter isParen = tokens.filter isParen := by
  refine filter_countedTokens isParen (fun token found => ?_) tokens
  rw [isParen, Bool.or_eq_true, decide_eq_true_eq, decide_eq_true_eq] at found
  rcases found with isOpen | isClose
  · simp [Token.isBlank, isOpen]
  · simp [Token.isBlank, isClose]

theorem isParen_of_kind (token : Token)
    (kind : token.kind = .parenOpen ∨ token.kind = .parenClose) : isParen token = true := by
  simpa [isParen] using kind

theorem balanced_counted (tokens : List Token) :
    Balanced (countedTokens tokens) ↔ Balanced tokens := by
  rw [← balanced_filter isParen_of_kind, filter_isParen_counted, balanced_filter isParen_of_kind]

theorem isPair_counted (tokens : List Token) (opening closing : Token) :
    IsPair (countedTokens tokens) opening closing ↔ IsPair tokens opening closing := by
  rw [← isPair_filter isParen_of_kind, filter_isParen_counted, isPair_filter isParen_of_kind]

theorem pairsAround_counted (tokens : List Token) (opening closing : Token) :
    pairsAround (countedTokens tokens) opening closing = pairsAround tokens opening closing := by
  ext pair
  simp only [pairsAround, Set.mem_ofPred_eq, isPair_counted]

theorem exists_between_blanks (tokens before inside after : List Token) (opening closing : Token)
    (whole : countedTokens tokens = before ++ opening :: (inside ++ closing :: after))
    (balanced : Balanced inside) :
    ∃ front between rest, tokens = front ++ opening :: (between ++ closing :: rest) ∧
      Balanced between ∧ between.filter (!·.isBlank) = inside := by
  obtain ⟨semicolons, parts, -⟩ := exists_semicolons tokens
  rw [whole, List.append_assoc, List.cons_append, List.append_assoc, List.cons_append] at parts
  obtain ⟨front, between, rest, same, -, rfl, -⟩ := exists_of_filter _ _ _ _ _ _ parts
  refine ⟨front, between, rest, same, (balanced_filter (fun token kind => ?_) between).1 balanced,
    rfl⟩
  rcases kind with isOpen | isClose
  · simp [Token.isBlank, isOpen]
  · simp [Token.isBlank, isClose]

end SqlLayout.Tree
