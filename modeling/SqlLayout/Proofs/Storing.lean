import Mathlib.Tactic.Push
import Mathlib.Tactic.Tauto
import SqlLayout.Keyword.Phrases
import SqlLayout.Proofs.Normalizing

/-! Storing phrases. What a tree of phrases holds is told by what stands at the end of each list
of words. Adding a phrase changes that for its own words and for no others, whichever phrases
share their first words with it; so a tree holds what was added to it, in whatever order. The
words of a text lead by every stored phrase that they begin with, the shorter ones first, and
the last one that they come by is kept. -/
namespace SqlLayout.Keyword.Phrases

def wordsOf (phrase : String) : List String :=
  Text.fields (Text.upper phrase)

theorem wordsOf_eq_nil_iff (phrase : String) :
    wordsOf phrase = [] ↔ ∀ c ∈ phrase.toList, Text.isBlank c = true := by
  rw [wordsOf, Text.fields_eq_nil_iff, Text.blank_upper_iff]

/-- What stands at the end of a list of words, which are taken as they are written. -/
def stored : Phrases → List String → Option String
  | phrases, [] => phrases.phrase
  | phrases, word :: rest => (phrases.children.lookup word).bind fun child => child.stored rest

@[simp] theorem stored_nil (phrases : Phrases) : phrases.stored [] = phrases.phrase := rfl

theorem stored_cons (phrases : Phrases) (word : String) (rest : List String) :
    phrases.stored (word :: rest) =
      (phrases.children.lookup word).bind fun child => child.stored rest := rfl

@[simp] theorem stored_empty (words : List String) : empty.stored words = none := by
  cases words <;> rfl

theorem lookup_adjust (word key : String) (change : Phrases → Phrases)
    (entries : List (String × Phrases)) :
    (adjust word change entries).lookup key =
      if key = word then some (change ((entries.lookup word).getD empty))
      else entries.lookup key := by
  have apart {first second : String} (differ : first ≠ second) : (first == second) = false :=
    beq_false_of_ne differ
  induction entries with
  | nil =>
    by_cases same : key = word
    · simp [adjust, same]
    · simp [adjust, List.lookup_cons, same, apart same]
  | cons entry rest ih =>
    obtain ⟨first, child⟩ := entry
    by_cases here : first = word
    · subst here
      by_cases same : key = first
      · simp [adjust, same]
      · simp [adjust, List.lookup_cons, same, apart same]
    · rw [adjust, if_neg here, List.lookup_cons, List.lookup_cons, List.lookup_cons, ih,
        apart (Ne.symm here)]
      by_cases same : key = first
      · simp [same, here]
      · simp [apart same]

/-- A phrase stands at the end of its own words, and everything else stays where it was. -/
theorem stored_insertWords (phrase : String) (added words : List String) (phrases : Phrases) :
    (insertWords phrase added phrases).stored words =
      if words = added then some phrase else phrases.stored words := by
  induction added generalizing phrases words with
  | nil =>
    obtain ⟨own, entries⟩ := phrases
    cases words <;> rfl
  | cons word rest ih =>
    obtain ⟨own, entries⟩ := phrases
    cases words with
    | nil => rfl
    | cons key others =>
      rw [insertWords, stored_cons, stored_cons, children, children, lookup_adjust]
      by_cases same : key = word
      · subst same
        rw [if_pos rfl, Option.bind_some, ih]
        cases found : entries.lookup key with
        | none => simp
        | some child => simp
      · simp [same]

theorem stored_insert (phrases : Phrases) (phrase : String) (words : List String) :
    (phrases.insert phrase).stored words =
      if words = wordsOf phrase then some (" ".intercalate words) else phrases.stored words := by
  rw [insert, addWords, stored_insertWords, ← wordsOf]
  by_cases same : words = wordsOf phrase
  · rw [if_pos same, if_pos same, same]
  · rw [if_neg same, if_neg same]

theorem stored_foldl_insert (added : List String) (phrases : Phrases) (words : List String) :
    (added.foldl insert phrases).stored words =
      if words ∈ added.map wordsOf then some (" ".intercalate words)
      else phrases.stored words := by
  induction added generalizing phrases with
  | nil => simp
  | cons phrase rest ih =>
    rw [List.foldl_cons, ih, stored_insert, List.map_cons]
    by_cases later : words ∈ rest.map wordsOf
    · rw [if_pos later, if_pos (List.mem_cons_of_mem _ later)]
    · rw [if_neg later]
      by_cases here : words = wordsOf phrase
      · rw [if_pos here, if_pos (by simp [here])]
      · rw [if_neg here, if_neg (by simpa [here] using later)]

theorem stored_added (initial added words : List String) :
    (added.foldl insert (ofList initial)).stored words =
      if words ∈ (initial ++ added).map wordsOf then some (" ".intercalate words) else none := by
  rw [ofList, ← List.foldl_append, stored_foldl_insert, stored_empty]

theorem longestMatch_eq_none_iff (phrases : Phrases) (words : List String) :
    phrases.longestMatch words = none ↔
      ∀ front, front ≠ [] → front <+: words.map Text.upper → phrases.stored front = none := by
  induction words generalizing phrases with
  | nil =>
    simp only [longestMatch_nil, List.map_nil, true_iff]
    exact fun front filled begins => absurd (List.prefix_nil.1 begins) filled
  | cons word rest ih =>
    rw [longestMatch_cons, List.map_cons]
    cases found : phrases.step word with
    | none =>
      simp only [Option.bind_none, true_iff]
      intro front filled begins
      obtain ⟨key, more, rfl⟩ := List.exists_cons_of_ne_nil filled
      obtain ⟨rfl, -⟩ := List.cons_prefix_cons.1 begins
      rw [stored_cons, ← step, found, Option.bind_none]
    | some child =>
      have onward (more : List String) :
          phrases.stored (Text.upper word :: more) = child.stored more := by
        rw [stored_cons, ← step, found, Option.bind_some]
      rw [Option.bind_some, Option.or_eq_none_iff, ih child]
      constructor
      · rintro ⟨deeper, here⟩ front filled begins
        obtain ⟨key, more, rfl⟩ := List.exists_cons_of_ne_nil filled
        obtain ⟨rfl, onwards⟩ := List.cons_prefix_cons.1 begins
        rw [onward]
        by_cases last : more = []
        · rw [last, stored_nil, here]
        · exact deeper more last onwards
      · intro nothing
        have behind (more : List String) (begins : more <+: rest.map Text.upper) :
            child.stored more = none := by
          rw [← onward]
          exact nothing _ (by simp) (List.cons_prefix_cons.2 ⟨rfl, begins⟩)
        exact ⟨fun more _ begins => behind more begins, behind [] (List.nil_prefix)⟩

theorem longestMatch_eq_some_iff (phrases : Phrases) (words : List String) (phrase : String) :
    phrases.longestMatch words = some phrase ↔
      ∃ front back, words.map Text.upper = front ++ back ∧ front ≠ [] ∧
        phrases.stored front = some phrase ∧
        ∀ more, more ≠ [] → more <+: back → phrases.stored (front ++ more) = none := by
  induction words generalizing phrases with
  | nil => simp
  | cons word rest ih =>
    rw [longestMatch_cons, List.map_cons]
    cases found : phrases.step word with
    | none =>
      simp only [Option.bind_none, reduceCtorEq, false_iff]
      rintro ⟨front, back, whole, filled, stands, -⟩
      obtain ⟨key, more, rfl⟩ := List.exists_cons_of_ne_nil filled
      obtain ⟨rfl, -⟩ := List.cons.inj whole
      rw [stored_cons, ← step, found] at stands
      simp at stands
    | some child =>
      have onward (more : List String) :
          phrases.stored (Text.upper word :: more) = child.stored more := by
        rw [stored_cons, ← step, found, Option.bind_some]
      rw [Option.bind_some, Option.or_eq_some_iff, ih child, longestMatch_eq_none_iff]
      constructor
      · rintro (⟨front, back, whole, filled, stands, longest⟩ | ⟨nothing, here⟩)
        · refine ⟨Text.upper word :: front, back, by rw [whole]; rfl, by simp, ?_, ?_⟩
          · rwa [onward]
          · intro more some begins
            rw [List.cons_append, onward]
            exact longest more some begins
        · refine ⟨[Text.upper word], rest.map Text.upper, rfl, by simp, ?_, ?_⟩
          · rwa [onward]
          · intro more some begins
            rw [List.singleton_append, onward]
            exact nothing more some begins
      · rintro ⟨front, back, whole, filled, stands, longest⟩
        obtain ⟨key, more, rfl⟩ := List.exists_cons_of_ne_nil filled
        obtain ⟨rfl, tail⟩ := List.cons.inj whole
        rw [onward] at stands
        by_cases last : more = []
        · subst last
          refine .inr ⟨fun further some begins => ?_, stands⟩
          rw [← onward]
          exact longest further some (by simpa [tail] using begins)
        · refine .inl ⟨more, back, tail, last, stands, fun further some begins => ?_⟩
          rw [← onward]
          exact longest further some begins

/-- A phrase of a list that begins with its words some words in upper case, and has more words
than any other phrase of the list that does. A phrase of blanks has no words. -/
structure IsLongest (phrases words : List String) (phrase : String) : Prop where
  member : phrase ∈ phrases
  filled : ¬∀ c ∈ phrase.toList, Text.isBlank c = true
  begins : wordsOf phrase <+: words.map Text.upper
  longest : ∀ other ∈ phrases, wordsOf other <+: words.map Text.upper →
    (wordsOf other).length ≤ (wordsOf phrase).length

structure Holds (tree : Phrases) (phrases : List String) : Prop where
  stored : ∀ words, tree.stored words =
    if words ∈ phrases.map wordsOf then some (" ".intercalate words) else none

namespace Holds

variable {tree other : Phrases} {phrases others words : List String}

theorem stored_wordsOf (holds : Holds tree phrases) {phrase : String} (member : phrase ∈ phrases) :
    tree.stored (wordsOf phrase) = some (Text.collapse (Text.upper phrase)) := by
  rw [holds.stored, if_pos (List.mem_map_of_mem member)]
  rfl

theorem exists_of_stored (holds : Holds tree phrases) {front : List String} {result : String}
    (stands : tree.stored front = some result) :
    ∃ phrase ∈ phrases, wordsOf phrase = front ∧ result = Text.collapse (Text.upper phrase) := by
  rw [holds.stored] at stands
  split at stands
  · rename_i member
    obtain ⟨phrase, inside, rfl⟩ := List.mem_map.1 member
    exact ⟨phrase, inside, rfl, (Option.some.inj stands).symm⟩
  · cases stands

theorem longestMatch_eq_some_iff (holds : Holds tree phrases) (result : String) :
    tree.longestMatch words = some result ↔
      ∃ phrase, IsLongest phrases words phrase ∧ result = Text.collapse (Text.upper phrase) := by
  rw [Phrases.longestMatch_eq_some_iff]
  constructor
  · rintro ⟨front, back, whole, filled, stands, behind⟩
    obtain ⟨phrase, member, rfl, shape⟩ := holds.exists_of_stored stands
    refine ⟨phrase, ⟨member, ?_, ⟨back, whole.symm⟩, ?_⟩, shape⟩
    · rwa [← wordsOf_eq_nil_iff]
    · intro other inside begins
      by_contra! longer
      obtain ⟨more, joined⟩ := List.prefix_of_prefix_length_le ⟨back, whole.symm⟩ begins longer.le
      have some : more ≠ [] := by
        rintro rfl
        rw [List.append_nil] at joined
        exact longer.ne (congrArg List.length joined)
      have onward : more <+: back := by
        rwa [← joined, whole, List.prefix_append_right_inj] at begins
      have none := behind more some onward
      rw [joined, holds.stored_wordsOf inside] at none
      cases none
  · rintro ⟨phrase, longest, rfl⟩
    obtain ⟨back, whole⟩ := longest.begins
    refine ⟨wordsOf phrase, back, whole.symm, ?_, holds.stored_wordsOf longest.member, ?_⟩
    · rw [Ne, wordsOf_eq_nil_iff]
      exact longest.filled
    · intro more some onward
      by_contra stands
      obtain ⟨result, found⟩ := Option.ne_none_iff_exists'.1 stands
      obtain ⟨other, inside, joined, -⟩ := holds.exists_of_stored found
      have begins : wordsOf other <+: words.map Text.upper := by
        rwa [joined, ← whole, List.prefix_append_right_inj]
      have shorter := longest.longest other inside begins
      rw [joined, List.length_append] at shorter
      exact some (List.length_eq_zero_iff.1 (by omega))

theorem longestMatch_eq_none_iff (holds : Holds tree phrases) :
    tree.longestMatch words = none ↔
      ∀ phrase ∈ phrases, wordsOf phrase <+: words.map Text.upper →
        ∀ c ∈ phrase.toList, Text.isBlank c = true := by
  rw [Phrases.longestMatch_eq_none_iff]
  constructor
  · intro nothing phrase member begins
    rw [← wordsOf_eq_nil_iff]
    by_contra filled
    have stands := holds.stored_wordsOf member
    rw [nothing _ filled begins] at stands
    cases stands
  · intro blank front filled begins
    by_contra stands
    obtain ⟨result, found⟩ := Option.ne_none_iff_exists'.1 stands
    obtain ⟨phrase, member, rfl, -⟩ := holds.exists_of_stored found
    exact filled ((wordsOf_eq_nil_iff phrase).2 (blank phrase member begins))

theorem longestMatch_eq (holds : Holds tree phrases) (alike : Holds other others)
    (same : ∀ phrase, phrase ∈ others ↔ phrase ∈ phrases) (words : List String) :
    other.longestMatch words = tree.longestMatch words := by
  have longest (phrase : String) :
      IsLongest others words phrase ↔ IsLongest phrases words phrase := by
    constructor
    · exact fun held => ⟨(same _).1 held.member, held.filled, held.begins,
        fun other inside => held.longest other ((same _).2 inside)⟩
    · exact fun held => ⟨(same _).2 held.member, held.filled, held.begins,
        fun other inside => held.longest other ((same _).1 inside)⟩
  refine Option.ext fun result => ?_
  rw [holds.longestMatch_eq_some_iff, alike.longestMatch_eq_some_iff]
  simp only [longest]

end Holds

theorem holds_added (initial added : List String) :
    Holds (added.foldl insert (ofList initial)) (initial ++ added) :=
  ⟨stored_added initial added⟩

/-- A tree of phrases finds the longest phrase of those that were added to it, in upper case
with single spaces, and nothing if none of them begins the words; the order in which they were
added, and how often each was, makes no difference. -/
theorem longestMatch_added (initial added words : List String) :
    (∀ result, (added.foldl insert (ofList initial)).longestMatch words = some result ↔
      ∃ phrase, IsLongest (initial ++ added) words phrase ∧
        result = Text.collapse (Text.upper phrase)) ∧
      ((added.foldl insert (ofList initial)).longestMatch words = none ↔
        ∀ phrase ∈ initial ++ added, wordsOf phrase <+: words.map Text.upper →
          ∀ c ∈ phrase.toList, Text.isBlank c = true) ∧
      ∀ others more : List String, (∀ phrase, phrase ∈ others ++ more ↔ phrase ∈ initial ++ added) →
        (more.foldl insert (ofList others)).longestMatch words =
          (added.foldl insert (ofList initial)).longestMatch words := by
  have holds := holds_added initial added
  exact ⟨fun result => holds.longestMatch_eq_some_iff result, holds.longestMatch_eq_none_iff,
    fun others more same => holds.longestMatch_eq (holds_added others more) same words⟩

theorem longestMatch_added_groupBy :
    (["group"].foldl insert (ofList [" ", "group  BY"])).longestMatch ["Group", "By", "a"] =
        some "GROUP BY" ∧
      (∀ phrase, phrase ∈ ["group", " "] ++ ["group  BY"] ↔
        phrase ∈ [" ", "group  BY"] ++ ["group"]) ∧
      (["group  BY"].foldl insert (ofList ["group", " "])).longestMatch ["Group", "By", "a"] =
        some "GROUP BY" := by
  have same (phrase : String) : phrase ∈ ["group", " "] ++ ["group  BY"] ↔
      phrase ∈ [" ", "group  BY"] ++ ["group"] := by
    simp only [List.cons_append, List.nil_append, List.mem_cons, List.not_mem_nil, or_false]
    tauto
  have found : (["group"].foldl insert (ofList [" ", "group  BY"])).longestMatch
      ["Group", "By", "a"] = some "GROUP BY" := by
    decide +kernel
  obtain ⟨-, -, order⟩ := longestMatch_added [" ", "group  BY"] ["group"] ["Group", "By", "a"]
  exact ⟨found, same, (order _ _ same).trans found⟩

end SqlLayout.Keyword.Phrases
