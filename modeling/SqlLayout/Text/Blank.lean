import SqlLayout.Text.Ranges

/-! Blank characters, and what depends on nothing else: stripping a text, cutting
it into the fields between its blanks, and writing the fields with one space
between them. -/
namespace SqlLayout.Text

/-- Tab to carriage return, the four separators and the space, next line, and the
wider spaces and line separators outside ASCII. -/
def blankRanges : List (Nat × Nat) :=
  [(9, 13), (28, 32), (133, 133), (160, 160), (5760, 5760), (8192, 8202), (8232, 8233),
   (8239, 8239), (8287, 8287), (12288, 12288)]

def isBlank (c : Char) : Bool :=
  inRanges blankRanges c.toNat

def stripChars (chars : List Char) : List Char :=
  ((chars.dropWhile isBlank).reverse.dropWhile isBlank).reverse

def strip (text : String) : String :=
  String.ofList (stripChars text.toList)

/-- Puts a character before the fields of what follows it: into the first of them
when the next character is not blank, as a field of its own otherwise. -/
def joinField (c : Char) (next : Option Char) : List (List Char) → List (List Char)
  | [] => [[c]]
  | field :: others =>
    if next.any (!isBlank ·) then (c :: field) :: others else [c] :: field :: others

def fieldChars : List Char → List (List Char)
  | [] => []
  | c :: rest =>
    if isBlank c then fieldChars rest else joinField c rest.head? (fieldChars rest)

def fields (text : String) : List String :=
  (fieldChars text.toList).map String.ofList

/-- The fields of a text with one space between neighbours. -/
def collapse (text : String) : String :=
  " ".intercalate (fields text)

@[simp] theorem fieldChars_nil : fieldChars [] = [] := rfl

theorem fieldChars_blank (c : Char) (rest : List Char) (blank : isBlank c = true) :
    fieldChars (c :: rest) = fieldChars rest := by
  simp [fieldChars, blank]

theorem ne_nil_of_mem_joinField (c : Char) (next : Option Char) (fields : List (List Char))
    (others : ∀ field ∈ fields, field ≠ []) (field : List Char)
    (member : field ∈ joinField c next fields) : field ≠ [] := by
  cases fields with
  | nil => simp_all [joinField]
  | cons first rest =>
    rw [joinField] at member
    split at member <;> rcases List.mem_cons.1 member with here | later
    · simp [here]
    · exact others field (List.mem_cons_of_mem first later)
    · simp [here]
    · exact others field later

theorem ne_nil_of_mem_fieldChars (chars field : List Char) (member : field ∈ fieldChars chars) :
    field ≠ [] := by
  induction chars generalizing field with
  | nil => simp at member
  | cons c rest ih =>
    by_cases blank : isBlank c = true
    · rw [fieldChars_blank c rest blank] at member
      exact ih field member
    · rw [fieldChars, if_neg blank] at member
      exact ne_nil_of_mem_joinField c rest.head? (fieldChars rest) ih field member

end SqlLayout.Text
