import SqlLayout.Fault
import SqlLayout.Keyword.Library
import SqlLayout.Keyword.Phrases
import SqlLayout.Keyword.Words
import SqlLayout.Notice

/-! The words of one dialect, found by a hint. A hint is any text: blanks, hyphens
and case do not matter, common other names are known, and a hint that names no
grammar of the library gives a notice. -/
namespace SqlLayout.Keyword

def joinParts (inRun : Bool) : List Char → List Char
  | [] => []
  | c :: rest =>
    if Text.isBlank c || c = '-' then
      if inRun then joinParts true rest else '_' :: joinParts true rest
    else c :: joinParts false rest

def normalizeHint (hint : String) : Option String :=
  let name := String.ofList (joinParts false (Text.lower (Text.strip hint)).toList)
  if name = "" then none else some ((aliases.lookup name).getD name)

def normalizeValue : Value → Except Fault (Option String)
  | .null => .ok none
  | .text hint => .ok (normalizeHint hint)
  | other => .error (.hintKind other.kind)

structure Registry where
  dialect : Option String
  reserved : List String
  functions : List String
  dataTypes : List String
  compounds : Phrases

def commonPhrases : Phrases :=
  compoundPhrases.foldl Phrases.addWords .empty

namespace Registry

def ofTables (name : Option String) (tables : WordTables) : Registry :=
  { dialect := name
    reserved := reservedWords ++ tables.reserved
    functions := functionNames ++ tables.functions
    dataTypes := dataTypeNames ++ tables.dataTypes
    compounds := commonPhrases }

def common (library : Library) : Registry :=
  ofTables none library.commonWords

/-- The registry of a dialect: the words of its family count whether its grammar is known or not. -/
def ofName (library : Library) (name : String) : Registry :=
  let ofFamily := (Family.ofName? name).elim .none Family.words
  let ofGrammar := (library.grammar? name).elim .none library.wordsOf
  ofTables (some name) (library.commonWords.append (ofFamily.append ofGrammar))

def ofHint (library : Library) (hint : Option String) : Registry × List Notice :=
  match hint.bind normalizeHint with
  | none => (common library, [])
  | some name =>
    (ofName library name, if (library.grammar? name).isNone then [.unknownDialect name] else [])

/-- Every hint, known or not, gives the common words with those of some tables. -/
theorem exists_ofTables (library : Library) (hint : Option String) :
    ∃ tables, (ofHint library hint).1 = ofTables (hint.bind normalizeHint) tables := by
  rw [ofHint]
  cases hint.bind normalizeHint with
  | none => exact ⟨_, rfl⟩
  | some name => exact ⟨_, rfl⟩

@[simp] theorem compounds_ofHint (library : Library) (hint : Option String) :
    (ofHint library hint).1.compounds = commonPhrases := by
  obtain ⟨tables, same⟩ := exists_ofTables library hint
  rw [same, ofTables]

theorem reservedWords_subset (library : Library) (hint : Option String) :
    reservedWords ⊆ (ofHint library hint).1.reserved := by
  obtain ⟨tables, same⟩ := exists_ofTables library hint
  rw [same, ofTables]
  exact List.subset_append_left _ _

def isReserved (registry : Registry) (word : String) : Bool :=
  registry.reserved.contains (Text.upper word)

theorem isReserved_common (library : Library) (word : String) :
    (common library).isReserved word = reservedWords.contains (Text.upper word) := by
  rw [isReserved, common, ofTables, Library.commonWords, List.append_nil]

def isFunction (registry : Registry) (word : String) (extra : List String) : Bool :=
  let name := Text.upper word
  !neverFunctions.contains name && (registry.functions.contains name || extra.contains name)

def shown (registry : Registry) : String :=
  "KeywordRegistry(dialect=" ++ registry.dialect.elim "None" Text.quoted ++ ", " ++
    registry.reserved.eraseDups.length.repr ++ " reserved, " ++
    registry.functions.eraseDups.length.repr ++ " functions)"

def isDataType (registry : Registry) (word : String) : Bool :=
  registry.dataTypes.contains (Text.upper word)

end Registry

/-- A library, and the hints that were looked up before. A notice about a hint is given once. -/
structure Catalogue where
  library : Library := {}
  asked : List String := []

namespace Catalogue

structure Answer where
  registry : Registry
  catalogue : Catalogue
  notices : List Notice

def lookup (catalogue : Catalogue) (hint : Option String) : Answer :=
  let (registry, notices) := Registry.ofHint catalogue.library hint
  match hint with
  | none => ⟨registry, catalogue, notices⟩
  | some text =>
    if catalogue.asked.contains text then ⟨registry, catalogue, []⟩
    else ⟨registry, { catalogue with asked := text :: catalogue.asked }, notices⟩

def lookupValue (catalogue : Catalogue) : Value → Except Fault Answer
  | .null => .ok (catalogue.lookup none)
  | .text hint => .ok (catalogue.lookup (some hint))
  | .list _ => .error (.hintShape .list)
  | .record _ => .error (.hintShape .record)
  | other => .error (.hintKind other.kind)

end Catalogue

end SqlLayout.Keyword
