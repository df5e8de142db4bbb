import SqlLayout.Text.CaseTable

/-! Upper and lower case of whole texts. A character may become several, and the
lower case of a capital sigma depends on its neighbours: at the end of a word it
is the final form. -/
namespace SqlLayout.Text

def expansionIn : List (Nat × List Nat) → Nat → Option (List Nat)
  | [], _ => none
  | (code, image) :: rest, wanted =>
    if wanted < code then none
    else if wanted = code then some image
    else expansionIn rest wanted

theorem mem_of_expansionIn (table : List (Nat × List Nat)) (code : Nat) (image : List Nat)
    (found : expansionIn table code = some image) : (code, image) ∈ table := by
  induction table with
  | nil => simp [expansionIn] at found
  | cons entry rest ih =>
    obtain ⟨first, target⟩ := entry
    simp only [expansionIn] at found
    split at found
    · simp at found
    · split at found
      · simp_all
      · exact List.mem_cons_of_mem _ (ih found)

def mapCase (expansions : List (Nat × List Nat)) (runs : List CaseRun) (c : Char) : List Char :=
  match expansionIn expansions c.toNat with
  | some image => image.map Char.ofNat
  | none =>
    match shiftIn runs c.toNat with
    | some shift => [Char.ofNat (c.toNat + shift).toNat]
    | none => [c]

def upperOf (c : Char) : List Char :=
  mapCase upperExpansions upperRuns c

def lowerOf (c : Char) : List Char :=
  mapCase lowerExpansions lowerRuns c

def isCased (c : Char) : Bool :=
  inRanges casedRanges c.toNat

def isSkipped (c : Char) : Bool :=
  inRanges skippedRanges c.toNat

/-- A sigma ends a word when a cased letter stands before it and none after it,
marks without case being passed over. `before` is read backwards. -/
def endsWord (before after : List Char) : Bool :=
  (before.dropWhile isSkipped).head?.any isCased &&
    !(after.dropWhile isSkipped).head?.any isCased

def lowerChars (before : List Char) : List Char → List Char
  | [] => []
  | c :: rest =>
    (if c = 'Σ' then [if endsWord before rest then 'ς' else 'σ'] else lowerOf c) ++
      lowerChars (c :: before) rest

def upper (text : String) : String :=
  String.ofList (text.toList.flatMap upperOf)

def lower (text : String) : String :=
  String.ofList (lowerChars [] text.toList)

@[simp] theorem upper_toList (text : String) :
    (upper text).toList = text.toList.flatMap upperOf := by
  simp [upper]

@[simp] theorem lower_toList (text : String) :
    (lower text).toList = lowerChars [] text.toList := by
  simp [lower]

end SqlLayout.Text
