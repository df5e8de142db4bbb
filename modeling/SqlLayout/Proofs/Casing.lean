import SqlLayout.Text.Blank
import SqlLayout.Text.Case

/-! What the tables of letter case hold, as far as later modules need it, and what stays of a text
when its blanks become single ones. The tables are checked as a whole: a character outside ASCII
may become anything outside ASCII, but within ASCII only a letter, none becomes a blank or
disappears, and what is in upper case stays as it is. -/
namespace SqlLayout.Text

/-- Code points that letter case may bring into a text: letters, and whatever lies outside
ASCII and is not blank. -/
def isLetterCode (code : Nat) : Bool :=
  ((128 ≤ code && code < 0xD800) || (0xE000 ≤ code && code < 0x110000) ||
    (65 ≤ code && code ≤ 90) || (97 ≤ code && code ≤ 122)) && !inRanges blankRanges code

/-- A run that leads to such code points only: from its first to its last image there is no
gap. -/
def CaseRun.isSound (run : CaseRun) : Bool :=
  let low := run.first + run.shift
  let high := run.last + run.shift
  ((128 ≤ low && high < 0xD800) || (0xE000 ≤ low && high < 0x110000) ||
    (65 ≤ low && high ≤ 90) || (97 ≤ low && high ≤ 122)) &&
    blankRanges.all fun range => high < range.1 || range.2 < low

theorem isBlank_of_isLetterCode (c : Char) (letter : isLetterCode c.toNat = true) :
    isBlank c = false := by
  simp only [isLetterCode, Bool.and_eq_true, Bool.not_eq_true'] at letter
  exact letter.2

theorem toNat_ofNat_of_isLetterCode (code : Nat) (letter : isLetterCode code = true) :
    (Char.ofNat code).toNat = code := by
  have valid : code.isValidChar := by
    simp only [isLetterCode, Bool.or_eq_true, Bool.and_eq_true, decide_eq_true_eq] at letter
    unfold Nat.isValidChar
    omega
  rw [Char.ofNat, dif_pos valid]
  rfl

theorem mem_of_shiftIn (runs : List CaseRun) (code : Nat) (shift : Int)
    (found : shiftIn runs code = some shift) :
    ∃ run ∈ runs, run.first ≤ code ∧ code ≤ run.last ∧
      (code - run.first) % run.step = 0 ∧ run.shift = shift := by
  induction runs with
  | nil => simp [shiftIn] at found
  | cons run rest ih =>
    simp only [shiftIn] at found
    split at found
    · simp at found
    split at found
    · rename_i notBelow inside
      exact ⟨run, by simp, by omega, inside.1, inside.2, by simpa using found⟩
    · obtain ⟨other, member, bounds⟩ := ih found
      exact ⟨other, List.mem_cons_of_mem _ member, bounds⟩

structure SoundTables (expansions : List (Nat × List Nat)) (runs : List CaseRun) : Prop where
  filled : ∀ entry ∈ expansions, entry.2 ≠ []
  letters : ∀ entry ∈ expansions, ∀ code ∈ entry.2, isLetterCode code = true
  runs : ∀ run ∈ runs, run.isSound = true

theorem soundTables_upper : SoundTables upperExpansions upperRuns := by
  refine ⟨?_, ?_, ?_⟩ <;> decide +kernel

theorem soundTables_lower : SoundTables lowerExpansions lowerRuns := by
  refine ⟨?_, ?_, ?_⟩ <;> decide +kernel

namespace SoundTables

variable {expansions : List (Nat × List Nat)} {runs : List CaseRun}

theorem mapCase_ne_nil (sound : SoundTables expansions runs) (c : Char) :
    mapCase expansions runs c ≠ [] := by
  unfold mapCase
  split
  · rename_i image found
    have filled := sound.filled _ (mem_of_expansionIn expansions _ image found)
    simpa using filled
  · split <;> simp

theorem mapCase_cases (sound : SoundTables expansions runs) (c : Char) :
    mapCase expansions runs c = [c] ∨
      ∀ image ∈ mapCase expansions runs c, isLetterCode image.toNat = true := by
  unfold mapCase
  split
  · rename_i codes found
    right
    intro image member
    obtain ⟨code, inside, rfl⟩ := List.mem_map.1 member
    have letter := sound.letters _ (mem_of_expansionIn expansions _ codes found) code inside
    rw [toNat_ofNat_of_isLetterCode code letter]
    exact letter
  · split
    · rename_i shift found
      right
      intro image member
      obtain ⟨run, inside, low, high, -, rfl⟩ := mem_of_shiftIn runs c.toNat shift found
      have runSound := sound.runs run inside
      have letter : isLetterCode (c.toNat + run.shift).toNat = true := by
        simp only [CaseRun.isSound, Bool.or_eq_true, Bool.and_eq_true, decide_eq_true_eq,
          List.all_eq_true] at runSound
        obtain ⟨letters, apart⟩ := runSound
        have visible : inRanges blankRanges (c.toNat + run.shift).toNat = false := by
          cases blank : inRanges blankRanges (c.toNat + run.shift).toNat with
          | false => rfl
          | true =>
            obtain ⟨range, held, start, stop⟩ := exists_range_of_inRanges _ _ blank
            have outside := apart range held
            omega
        simp only [isLetterCode, Bool.or_eq_true, Bool.and_eq_true, decide_eq_true_eq, visible,
          Bool.not_false, and_true]
        omega
      rw [List.mem_singleton.1 member, toNat_ofNat_of_isLetterCode _ letter]
      exact letter
    · exact .inl rfl

end SoundTables

def lowerAt (before : List Char) (c : Char) (rest : List Char) : List Char :=
  if c = 'Σ' then [if endsWord before rest then 'ς' else 'σ'] else lowerOf c

theorem lowerChars_cons (before : List Char) (c : Char) (rest : List Char) :
    lowerChars before (c :: rest) = lowerAt before c rest ++ lowerChars (c :: before) rest := rfl

theorem lowerAt_ne_nil (before : List Char) (c : Char) (rest : List Char) :
    lowerAt before c rest ≠ [] := by
  unfold lowerAt
  split
  · simp
  · exact soundTables_lower.mapCase_ne_nil c

theorem lowerAt_cases (before : List Char) (c : Char) (rest : List Char) :
    lowerAt before c rest = [c] ∨
      ∀ image ∈ lowerAt before c rest, isLetterCode image.toNat = true := by
  unfold lowerAt
  split
  · right
    intro image member
    rw [List.mem_singleton.1 member]
    split <;> decide
  · exact soundTables_lower.mapCase_cases c

def isUpperCode (code : Nat) : Bool :=
  (expansionIn upperExpansions code).isNone && (shiftIn upperRuns code).isNone

theorem upperOf_of_isUpperCode (c : Char) (final : isUpperCode c.toNat = true) :
    upperOf c = [c] := by
  simp only [isUpperCode, Bool.and_eq_true, Option.isNone_iff_eq_none] at final
  simp only [upperOf, mapCase, final.1, final.2]

def isUnexpanded (low high : Nat) : List (Nat × List Nat) → Bool
  | [] => true
  | (code, _) :: rest => Nat.blt high code || Nat.blt code low && isUnexpanded low high rest

theorem expansionIn_of_isUnexpanded (table : List (Nat × List Nat)) (low high code : Nat)
    (clear : isUnexpanded low high table = true) (above : low ≤ code) (below : code ≤ high) :
    expansionIn table code = none := by
  induction table with
  | nil => rfl
  | cons entry rest ih =>
    obtain ⟨first, image⟩ := entry
    simp only [isUnexpanded, Bool.or_eq_true, Bool.and_eq_true, Nat.blt_eq] at clear
    rw [expansionIn]
    by_cases before : code < first
    · rw [if_pos before]
    · obtain ⟨under, others⟩ := clear.resolve_left (by omega)
      rw [if_neg before, if_neg (by omega), ih others]

/-- None of the runs, which ascend, takes in a code point between two others. Where a run takes
every second one, so may `step`, and they miss each other. -/
def isUnmoved (low high step : Nat) : List CaseRun → Bool
  | [] => true
  | run :: rest =>
    Nat.blt high run.first ||
      (Nat.blt run.last low ||
        (run.step == 2 && (step == 2 || low == high) && (low + run.first) % 2 == 1)) &&
        isUnmoved low high step rest

theorem shiftIn_of_isUnmoved (runs : List CaseRun) (low high step code : Nat)
    (clear : isUnmoved low high step runs = true) (above : low ≤ code) (below : code ≤ high)
    (even : (code - low) % step = 0) : shiftIn runs code = none := by
  induction runs with
  | nil => rfl
  | cons run rest ih =>
    simp only [isUnmoved, Bool.or_eq_true, Bool.and_eq_true, Nat.blt_eq, beq_iff_eq] at clear
    rw [shiftIn]
    by_cases before : code < run.first
    · rw [if_pos before]
    · obtain ⟨apart, others⟩ := clear.resolve_left (by omega)
      have missed : ¬(code ≤ run.last ∧ (code - run.first) % run.step = 0) := by
        rintro ⟨inside, taken⟩
        rcases apart with under | ⟨⟨second, alternates⟩, odd⟩
        · omega
        · rw [second] at taken
          rcases alternates with alike | single
          · rw [alike] at even
            omega
          · omega
      rw [if_neg before, if_neg missed, ih others]

def CaseRun.low (run : CaseRun) : Nat :=
  (run.first + run.shift).toNat

def CaseRun.high (run : CaseRun) : Nat :=
  (run.last + run.shift).toNat

theorem upperRuns_final :
    (upperRuns.all fun run => isUnexpanded run.low run.high upperExpansions) = true ∧
      (upperRuns.all fun run => isUnmoved run.low run.high run.step upperRuns) = true := by
  constructor <;> decide +kernel

theorem upperExpansions_final :
    (upperExpansions.all fun entry => entry.2.all isUpperCode) = true := by
  decide +kernel

theorem joinField_flatten (c : Char) (next : Option Char) (fields : List (List Char)) :
    (joinField c next fields).flatten = c :: fields.flatten := by
  unfold joinField
  split
  · rfl
  · split <;> rfl

theorem fieldChars_flatten (chars : List Char) :
    (fieldChars chars).flatten = chars.filter (!isBlank ·) := by
  induction chars with
  | nil => rfl
  | cons c rest ih =>
    by_cases blank : isBlank c = true
    · rw [fieldChars_blank c rest blank, ih, List.filter_cons_of_neg (by simp [blank])]
    · rw [fieldChars, if_neg blank, joinField_flatten, ih,
        List.filter_cons_of_pos (by simpa using blank)]

theorem collapse_toList (text : String) :
    (collapse text).toList = [' '].intercalate (fieldChars text.toList) := by
  rw [collapse, String.toList_intercalate, fields, List.map_map]
  have same : String.toList ∘ String.ofList = id := by
    funext chars
    simp
  rw [same, List.map_id]
  rfl

theorem count_intercalate (sign : Char) (apart : sign ≠ ' ') (fields : List (List Char)) :
    ([' '].intercalate fields).count sign = fields.flatten.count sign := by
  induction fields with
  | nil => rfl
  | cons field rest ih =>
    cases rest with
    | nil => simp
    | cons second others =>
      have other : (' ' == sign) = false := by simpa using apart.symm
      rw [List.intercalate_cons_cons, List.flatten_cons, List.count_append, List.count_append, ih,
        List.count_append, List.count_singleton]
      simp [other]

theorem count_collapse_le (text : String) (sign : Char) (apart : sign ≠ ' ') :
    (collapse text).toList.count sign ≤ text.toList.count sign := by
  rw [collapse_toList, count_intercalate sign apart, fieldChars_flatten]
  exact List.filter_sublist.count_le sign

theorem mem_collapse (text : String) (c : Char) (member : c ∈ (collapse text).toList) :
    c = ' ' ∨ c ∈ text.toList := by
  by_cases space : c = ' '
  · exact .inl space
  · right
    have present := List.count_pos_iff.2 member
    have bound := count_collapse_le text c space
    exact List.count_pos_iff.1 (by omega)

theorem collapse_ne_empty (text : String) (c : Char) (member : c ∈ text.toList)
    (visible : isBlank c = false) : collapse text ≠ "" := by
  have apart : c ≠ ' ' := by
    rintro rfl
    simp [isBlank, blankRanges, inRanges] at visible
  have kept : 0 < (collapse text).toList.count c := by
    rw [collapse_toList, count_intercalate c apart, fieldChars_flatten, List.count_pos_iff,
      List.mem_filter]
    exact ⟨member, by simp [visible]⟩
  intro empty
  simp [empty] at kept

end SqlLayout.Text
