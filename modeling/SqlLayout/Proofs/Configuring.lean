import Mathlib
import SqlLayout.Proofs.Normalizing
import SqlLayout.Proofs.Unfailing

/-! Styles that are made from options. Every option has a rule that settles on a value for
whatever it is given, but for function names. Those are refused where they are a number or true,
which have no members, and where an integer among them is too long to be written, as none is
that was read itself. So a style comes about, by whichever way, unless such names are asked for
on the way; its function names are as they would be read, and all of its options, written down
and read again, give the same style without a notice. -/
namespace SqlLayout

theorem Report.outcome_bind {α β : Type} {report : Report α} {value : α}
    (settled : report.outcome = .ok value) (next : α → Report β) :
    (report >>= next).outcome = (next value).outcome := by
  change (Report.bind report next).outcome = _
  rw [Report.bind, settled]

theorem Report.outcome_bind_error {α β : Type} {report : Report α} {fault : Fault}
    (refused : report.outcome = .error fault) (next : α → Report β) :
    (report >>= next).outcome = .error fault := by
  change (Report.bind report next).outcome = _
  rw [Report.bind, refused]

theorem isSome_mapM {α β : Type} (f : α → Option β) (entries : List α) :
    (entries.mapM f).isSome = entries.all fun entry => (f entry).isSome := by
  induction entries with
  | nil => rfl
  | cons first rest ih =>
    rw [List.all_cons, ← ih, List.mapM_cons]
    cases f first with
    | none => rfl
    | some result => cases rest.mapM f <;> rfl

namespace Value

mutual

/-- No integer in the value has more digits than are written. As many are read from a text, so
this holds of all values that were read from one. -/
def isWritable : Value → Bool
  | .int number => number.natAbs < Nat.pow 10 digitLimit
  | .list entries => areWritable entries
  | .record entries => fieldsWritable entries
  | _ => true

def areWritable : List Value → Bool
  | [] => true
  | entry :: rest => isWritable entry && areWritable rest

def fieldsWritable : List (String × Value) → Bool
  | [] => true
  | (_, entry) :: rest => isWritable entry && fieldsWritable rest

end

theorem areWritable_eq_all (entries : List Value) :
    areWritable entries = entries.all isWritable := by
  induction entries with
  | nil => rfl
  | cons first rest ih => rw [areWritable, ih, List.all_cons]

mutual

theorem isSome_shown (value : Value) : (shown value).isSome = isWritable value := by
  cases value with
  | int number =>
    rw [shown, digits?, isWritable]
    split <;> simp_all
  | list entries => rw [shown, Option.isSome_map, isSome_shownList, isWritable]
  | record entries => rw [shown, Option.isSome_map, isSome_shownRecord, isWritable]
  | _ => rfl

theorem isSome_shownList (entries : List Value) :
    (shownList entries).isSome = areWritable entries := by
  cases entries with
  | nil => rfl
  | cons first rest =>
    rw [shownList, areWritable, ← isSome_shown first, ← isSome_shownList rest]
    cases shown first <;> cases shownList rest <;> rfl

theorem isSome_shownRecord (entries : List (String × Value)) :
    (shownRecord entries).isSome = fieldsWritable entries := by
  cases entries with
  | nil => rfl
  | cons first rest =>
    rw [shownRecord, fieldsWritable, ← isSome_shown first.2, ← isSome_shownRecord rest]
    cases shown first.2 <;> cases shownRecord rest <;> rfl

end

theorem isSome_plain (value : Value) : value.plain.isSome = value.isWritable := by
  cases value with
  | text content => rfl
  | _ => exact isSome_shown _

end Value

section Lists

variable {α : Type} [BEq α] [LawfulBEq α]

theorem nodup_eraseDups (entries : List α) : entries.eraseDups.Nodup := by
  match entries with
  | [] => exact List.nodup_nil
  | first :: rest =>
    rw [List.eraseDups_cons, List.nodup_cons]
    refine ⟨fun member => ?_, nodup_eraseDups _⟩
    rw [List.mem_eraseDups, List.mem_filter] at member
    simp at member
termination_by entries.length
decreasing_by exact Nat.lt_succ_of_le (List.length_filter_le _ rest)

theorem eraseDups_eq_self (entries : List α) (once : entries.Nodup) :
    entries.eraseDups = entries := by
  induction entries with
  | nil => rfl
  | cons first rest ih =>
    rw [List.nodup_cons] at once
    have others : rest.filter (fun entry => !entry == first) = rest := by
      refine List.filter_eq_self.2 fun entry member => ?_
      have other : entry ≠ first := by
        rintro rfl
        exact once.1 member
      simpa using other
    rw [List.eraseDups_cons, others, ih once.2]

end Lists

namespace Style

/-- A name as function names are kept: in upper case, not empty, no blanks around it. -/
structure IsFunctionName (name : String) : Prop where
  filled : name ≠ ""
  upper : Text.upper name = name
  trimmed : Text.strip name = name

/-- Function names as they are kept: ascending, each once. -/
structure IsNameSet (names : List String) : Prop where
  each : ∀ name ∈ names, IsFunctionName name
  ascending : names.Pairwise (· ≤ ·)
  once : names.Nodup

theorem isFunctionName_upper_strip (name : String) (filled : Text.strip name ≠ "") :
    IsFunctionName (Text.upper (Text.strip name)) where
  filled := by
    intro none
    obtain ⟨c, member⟩ := List.exists_mem_of_ne_nil _ (String.toList_eq_nil_iff.not.2 filled)
    obtain ⟨image, inside⟩ := List.exists_mem_of_ne_nil _ (Text.upperOf_ne_nil c)
    have stays : image ∈ (Text.upper (Text.strip name)).toList := by
      rw [Text.upper_toList]
      exact List.mem_flatMap.2 ⟨c, member, inside⟩
    rw [none] at stays
    simp at stays
  upper := Text.upper_upper _
  trimmed := (Text.isTrimmed_strip name).upper.strip_eq

theorem isNameSet_nameSet (names : List String) : IsNameSet (nameSet names) where
  each := by
    intro name member
    rw [nameSet, List.mem_mergeSort, List.mem_eraseDups] at member
    obtain ⟨stripped, inside, rfl⟩ := List.mem_map.1 member
    obtain ⟨given, filled⟩ := List.mem_filter.1 inside
    obtain ⟨source, -, rfl⟩ := List.mem_map.1 given
    exact isFunctionName_upper_strip source (by simpa using filled)
  ascending := by
    refine (List.pairwise_mergeSort ?_ ?_ _).imp of_decide_eq_true
    · intro first second third before after
      exact decide_eq_true (String.le_trans (of_decide_eq_true before) (of_decide_eq_true after))
    · intro first second
      simpa using String.le_total first second
  once := (List.mergeSort_perm _ _).nodup_iff.2 (nodup_eraseDups _)

theorem IsNameSet.nameSet_eq {names : List String} (kept : IsNameSet names) :
    nameSet names = names := by
  have stripped : names.map Text.strip = names :=
    (List.map_congr_left fun name member => (kept.each name member).trimmed).trans (List.map_id' _)
  have filled : names.filter (· ≠ "") = names :=
    List.filter_eq_self.2 fun name member => by simpa using (kept.each name member).filled
  have upper : names.map Text.upper = names :=
    (List.map_congr_left fun name member => (kept.each name member).upper).trans (List.map_id' _)
  rw [nameSet, stripped, filled, upper, eraseDups_eq_self names kept.once,
    List.mergeSort_of_pairwise (kept.ascending.imp decide_eq_true)]

structure IsValid (style : Style) : Prop extends style.Wraps where
  names : IsNameSet style.functionNames

def isNumeric : Value → Bool
  | .bool flag => flag
  | .int number => number ≠ 0
  | .real number => !number.isZero
  | _ => false

def isOverlong : Value → Bool
  | .list entries => !Value.areWritable entries
  | _ => false

def namesFault? (value : Value) : Option Fault :=
  if isNumeric value then some (.namesKind value.kind)
  else if isOverlong value then some .numberLength
  else none

theorem members_of_isNumeric (value : Value) (numeric : isNumeric value = true) :
    members value = .error (.namesKind value.kind) := by
  cases value with
  | bool flag =>
    obtain rfl : flag = true := numeric
    rfl
  | int number =>
    have set : number ≠ 0 := by simpa [isNumeric] using numeric
    simp [members, Value.isSet, set]
  | real number =>
    have set : number.isZero = false := by simpa [isNumeric] using numeric
    simp [members, Value.isSet, set]
  | _ => exact absurd numeric Bool.false_ne_true

theorem members_list (entries : List Value) (filled : entries ≠ []) :
    members (.list entries) =
      (entries.mapM Value.plain).elim (.error .numberLength) .ok := by
  have set : (Value.list entries).isSet = true := by simpa [Value.isSet] using filled
  rw [members, set]
  cases entries.mapM Value.plain <;> rfl

theorem isSome_plains (entries : List Value) :
    (entries.mapM Value.plain).isSome = Value.areWritable entries := by
  rw [isSome_mapM, Value.areWritable_eq_all]
  simp only [Value.isSome_plain]

theorem members_cases (value : Value) :
    (∀ fault, namesFault? value = some fault → members value = .error fault) ∧
      (namesFault? value = none → ∃ names, members value = .ok names) := by
  by_cases numeric : isNumeric value = true
  · simp [namesFault?, numeric, members_of_isNumeric]
  rw [namesFault?, if_neg numeric]
  cases value with
  | list entries =>
    cases entries with
    | nil => exact ⟨by simp [isOverlong, Value.areWritable], fun _ => ⟨[], rfl⟩⟩
    | cons first rest =>
      have written := isSome_plains (first :: rest)
      rw [members_list _ (List.cons_ne_nil _ _), isOverlong, ← written]
      cases (first :: rest).mapM Value.plain with
      | none => exact ⟨by simp, by simp⟩
      | some names => exact ⟨by simp, fun _ => ⟨names, rfl⟩⟩
  | text content | record entries =>
    refine ⟨by simp [isOverlong], fun _ => ?_⟩
    rw [members]
    split
    · exact ⟨_, rfl⟩
    · exact ⟨_, rfl⟩
  | _ =>
    -- Nothing is left of these but what is not set.
    exact ⟨by simp [isOverlong], fun _ => ⟨[], by simp_all [members, isNumeric, Value.isSet]⟩⟩

section Rules

variable (key : OptionKey) (value : Value)

theorem exists_readWord {α : Type} (parse : Value → Except Fault α) (name : α → String)
    (default : α) : ∃ result, (readWord parse name key default value).outcome = .ok result := by
  unfold readWord
  split
  · exact ⟨_, rfl⟩
  · exact ⟨_, rfl⟩

theorem exists_readThreshold (default : Nat) (finite : value.isInfinite = false) :
    ∃ result, (readThreshold key default value).outcome = .ok result := by
  simp only [readThreshold, finite, Bool.false_eq_true, if_false]
  split
  · exact ⟨_, rfl⟩
  · split
    · exact ⟨_, rfl⟩
    · exact ⟨_, rfl⟩

theorem exists_readFlag (default : Bool) :
    ∃ result, (readFlag key default value).outcome = .ok result := by
  unfold readFlag
  split
  · exact ⟨_, rfl⟩
  · exact ⟨_, rfl⟩

theorem exists_readSeparator (default : Char) :
    ∃ result, (readSeparator key default value).outcome = .ok result := by
  unfold readSeparator
  split
  · split
    · exact ⟨_, rfl⟩
    · exact ⟨_, rfl⟩
  · exact ⟨_, rfl⟩

end Rules

theorem exists_readOr {α : Type} (settings : Settings) (key : OptionKey) (default : α)
    (rule : OptionKey → α → Value → Report α)
    (settles : ∀ value, settings.lookup key = some value →
      ∃ result, (rule key default value).outcome = .ok result) :
    ∃ result, (readOr settings key default rule).outcome = .ok result := by
  unfold readOr
  cases found : settings.lookup key with
  | none => exact ⟨default, rfl⟩
  | some value => exact settles value found

/-- Finite numbers are read without a fault, and so is everything else but function names. -/
theorem outcome_ofSettings (settings : Settings)
    (finite : ∀ key value, settings.lookup key = some value → value.isInfinite = false) :
    ∃ style : Style, (ofSettings settings).outcome =
      (readOr settings .additionalFunctionNames [] readNames).outcome.map fun names =>
        { style with functionNames := names } := by
  have word (key : OptionKey) (default : WordCase) :=
    exists_readOr settings key default readCase fun value _ =>
      exists_readWord key value WordCase.ofValue WordCase.name default
  have wrap (key : OptionKey) (default : JoinWrap) :=
    exists_readOr settings key default readJoinWrap fun value _ =>
      exists_readWord key value JoinWrap.ofValue JoinWrap.name default
  have count (key : OptionKey) :=
    exists_readOr settings key 1 readThreshold fun value found =>
      exists_readThreshold key value 1 (finite key value found)
  have flag (key : OptionKey) (default : Bool) :=
    exists_readOr settings key default readFlag fun value _ => exists_readFlag key value default
  have sign (key : OptionKey) (default : Char) :=
    exists_readOr settings key default readSeparator fun value _ =>
      exists_readSeparator key value default
  obtain ⟨keywordCase, isKeywordCase⟩ := word .keywordCase .upper
  obtain ⟨identifierCase, isIdentifierCase⟩ := word .identifierCase .asIs
  obtain ⟨functionCase, isFunctionCase⟩ := word .functionCase .upper
  obtain ⟨dataTypeCase, isDataTypeCase⟩ := word .dataTypeCase .upper
  obtain ⟨joinWrapStyle, isJoinWrapStyle⟩ := wrap .joinWrapStyle .onlyMultiple
  obtain ⟨maxColumnsSelect, isMaxColumnsSelect⟩ := count .maxColumnsSelect
  obtain ⟨maxColumnsInsert, isMaxColumnsInsert⟩ := count .maxColumnsInsert
  obtain ⟨maxColumnsUpdate, isMaxColumnsUpdate⟩ := count .maxColumnsUpdate
  obtain ⟨commaAfterLineBreak, isCommaAfterLineBreak⟩ := flag .commaAfterLineBreak false
  obtain ⟨spaceAfterLineBreakComma, isSpaceAfterLineBreakComma⟩ :=
    flag .spaceAfterLineBreakComma false
  obtain ⟨spaceAfterInListComma, isSpaceAfterInListComma⟩ := flag .spaceAfterInListComma false
  obtain ⟨newLineForSubselects, isNewLineForSubselects⟩ := flag .newLineForSubselects false
  obtain ⟨addColumnNameComments, isAddColumnNameComments⟩ := flag .addColumnNameComments false
  obtain ⟨indentWhereConditions, isIndentWhereConditions⟩ := flag .indentWhereConditions false
  obtain ⟨indentInsert, isIndentInsert⟩ := flag .indentInsert true
  obtain ⟨catalogSeparator, isCatalogSeparator⟩ := sign .catalogSeparatorChar '.'
  refine ⟨{ keywordCase, identifierCase, functionCase, dataTypeCase, maxColumnsSelect,
            maxColumnsInsert, maxColumnsUpdate, commaAfterLineBreak, spaceAfterLineBreakComma,
            spaceAfterInListComma, newLineForSubselects, joinWrapStyle, indentWhereConditions,
            indentInsert, addColumnNameComments, catalogSeparator }, ?_⟩
  simp only [ofSettings, Report.outcome_bind isKeywordCase, Report.outcome_bind isIdentifierCase,
    Report.outcome_bind isFunctionCase, Report.outcome_bind isDataTypeCase,
    Report.outcome_bind isJoinWrapStyle, Report.outcome_bind isMaxColumnsSelect,
    Report.outcome_bind isMaxColumnsInsert, Report.outcome_bind isMaxColumnsUpdate,
    Report.outcome_bind isCommaAfterLineBreak, Report.outcome_bind isSpaceAfterLineBreakComma,
    Report.outcome_bind isSpaceAfterInListComma, Report.outcome_bind isNewLineForSubselects,
    Report.outcome_bind isAddColumnNameComments, Report.outcome_bind isIndentWhereConditions,
    Report.outcome_bind isIndentInsert, Report.outcome_bind isCatalogSeparator]
  cases names : (readOr settings .additionalFunctionNames [] readNames).outcome with
  | error fault => rw [Report.outcome_bind_error names]; rfl
  | ok kept => rw [Report.outcome_bind names]; rfl

theorem ofSettings_cases (settings : Settings)
    (finite : ∀ key value, settings.lookup key = some value → value.isInfinite = false) :
    (∀ fault, (settings.lookup .additionalFunctionNames).bind namesFault? = some fault →
        (ofSettings settings).outcome = .error fault) ∧
      ((settings.lookup .additionalFunctionNames).bind namesFault? = none →
        ∃ style, (ofSettings settings).outcome = .ok style ∧ style.IsValid) := by
  obtain ⟨style, outcome⟩ := outcome_ofSettings settings finite
  have accepted {names : List String} (kept : IsNameSet names)
      (read : (readOr settings .additionalFunctionNames [] readNames).outcome = .ok names) :
      ∃ style, (ofSettings settings).outcome = .ok style ∧ style.IsValid := by
    rw [read] at outcome
    exact ⟨_, outcome, wraps_of_settings settings _ outcome, kept⟩
  cases found : settings.lookup .additionalFunctionNames with
  | none => exact ⟨by simp, fun _ => accepted ⟨by simp, .nil, .nil⟩ (by rw [readOr, found]; rfl)⟩
  | some value =>
    obtain ⟨refused, given⟩ := members_cases value
    constructor
    · intro fault stops
      rw [outcome, readOr, found]
      simp only [readNames, refused fault stops]
      rfl
    · intro nothing
      obtain ⟨names, read⟩ := given nothing
      refine accepted (isNameSet_nameSet names) ?_
      rw [readOr, found]
      simp only [readNames, read]
      rfl

section Copies

variable (key : OptionKey)

theorem readCase_name (default choice : WordCase) :
    readCase key default (.text choice.name) = pure choice := by
  cases choice <;> rfl

theorem readJoinWrap_name (default choice : JoinWrap) :
    readJoinWrap key default (.text choice.name) = pure choice := by
  cases choice <;> rfl

theorem readThreshold_int (default number : Nat) (positive : 1 ≤ number) :
    readThreshold key default (.int number) = pure number := by
  have large : ¬(number : Int) < 1 := by omega
  simp only [readThreshold, Value.isInfinite, Bool.false_eq_true, if_false, Value.toInteger?,
    if_neg large, Int.toNat_natCast]

theorem readFlag_bool (default flag : Bool) : readFlag key default (.bool flag) = pure flag := rfl

theorem readSeparator_char (default c : Char) :
    readSeparator key default (.text c.toString) = pure c := by
  have single : c.toString.toList = [c] := String.toList_singleton c
  simp only [readSeparator, single]

theorem readNames_list {names : List String} (kept : IsNameSet names) (default : List String) :
    readNames key default (.list (names.map .text)) = pure names := by
  have plain : (names.map Value.text).mapM Value.plain = some names := by
    induction names with
    | nil => rfl
    | cons first rest ih =>
      have onward := ih ⟨fun name member => kept.each name (List.mem_cons_of_mem _ member),
        (List.pairwise_cons.1 kept.ascending).2, (List.nodup_cons.1 kept.once).2⟩
      rw [List.map_cons, List.mapM_cons, onward]
      rfl
  have members : members (.list (names.map .text)) = .ok names := by
    cases names with
    | nil => rfl
    | cons first rest =>
      rw [members_list _ (by simp), plain]
      rfl
  simp only [readNames, members, kept.nameSet_eq]

end Copies

theorem ofSettings_value (style : Style) (valid : style.IsValid) (settings : Settings)
    (same : ∀ key, settings.lookup key = some (style.value key)) :
    ofSettings settings = pure style := by
  simp only [ofSettings, readOr, same, value, readCase_name, readJoinWrap_name, readFlag_bool,
    readSeparator_char, readNames_list _ valid.names, readThreshold_int _ _ _ valid.select,
    readThreshold_int _ _ _ valid.insert, readThreshold_int _ _ _ valid.update, Report.pure_bind]

theorem lookup_settings (style : Style) (key : OptionKey) :
    style.settings.lookup key = some (style.value key) := by
  cases key <;> rfl

def latest (resolve : String → Option OptionKey) (entries : List (String × Value))
    (key : OptionKey) : Option Value :=
  (entries.reverse.find? fun entry => resolve entry.1 = some key).map Prod.snd

def settingsBy (resolve : String → Option OptionKey) (entries : List (String × Value)) :
    Settings :=
  (entries.filterMap fun entry => (resolve entry.1).map (·, entry.2)).reverse

theorem lookup_settingsBy (resolve : String → Option OptionKey) (entries : List (String × Value))
    (key : OptionKey) : (settingsBy resolve entries).lookup key = latest resolve entries key := by
  rw [settingsBy, latest, ← List.filterMap_reverse]
  induction entries.reverse with
  | nil => rfl
  | cons entry rest ih =>
    cases found : resolve entry.1 with
    | none => simp [found, ih]
    | some other =>
      by_cases same : other = key
      · simp [found, same]
      · simp [found, same, List.lookup_cons, ih, beq_false_of_ne (Ne.symm same)]

theorem changes_known (entries : List (String × Value)) (settings : Settings)
    (known : ∀ entry ∈ entries, (OptionKey.ofName? entry.1).isSome = true) :
    changes settings entries = pure (settingsBy OptionKey.ofName? entries ++ settings) := by
  induction entries generalizing settings with
  | nil => rfl
  | cons entry rest ih =>
    obtain ⟨here, later⟩ := List.forall_mem_cons.1 known
    obtain ⟨key, found⟩ := Option.isSome_iff_exists.1 here
    rw [changes, found]
    simp only [ih _ later, settingsBy, List.filterMap_cons, found, Option.map_some,
      List.reverse_cons, List.append_assoc, List.singleton_append]

theorem settingsOfRecord_known (entries : List (String × Value)) (settings : Settings)
    (known : ∀ entry ∈ entries, (OptionKey.resolve? entry.1).isSome = true) :
    settingsOfRecord settings entries =
      pure (settingsBy OptionKey.resolve? entries ++ settings) := by
  induction entries generalizing settings with
  | nil => rfl
  | cons entry rest ih =>
    obtain ⟨here, later⟩ := List.forall_mem_cons.1 known
    obtain ⟨key, found⟩ := Option.isSome_iff_exists.1 here
    rw [settingsOfRecord, found]
    simp only [ih _ later, settingsBy, List.filterMap_cons, found, Option.map_some,
      List.reverse_cons, List.append_assoc, List.singleton_append]

theorem ofValue_toRecord (style : Style) (valid : style.IsValid) :
    ofValue (.record style.toRecord) = pure style := by
  have known : ∀ entry ∈ style.toRecord, (OptionKey.resolve? entry.1).isSome = true := by
    intro entry member
    obtain ⟨key, -, rfl⟩ := List.mem_map.1 member
    rw [OptionKey.resolve?_name]
    rfl
  have same (key : OptionKey) :
      (settingsBy OptionKey.resolve? style.toRecord).lookup key = some (style.value key) := by
    rw [lookup_settingsBy, latest, toRecord, ← List.map_reverse, List.find?_map]
    simp only [Function.comp_def, OptionKey.resolve?_name, Option.some.injEq]
    cases key <;> rfl
  have set : Value.isSet (.record style.toRecord) = true := rfl
  rw [ofValue, set]
  simp only [Bool.not_true, Bool.false_eq_true, if_false, ofRecord,
    settingsOfRecord_known _ _ known, List.append_nil, Report.pure_bind]
  exact ofSettings_value style valid _ same

/-- A way of making a style: from options by their exact names, from a record of options by any
of their names, or from a style with some options set anew. -/
inductive Recipe where
  | options (entries : List (String × Value))
  | record (entries : List (String × Value))
  | update (before : Recipe) (entries : List (String × Value))

namespace Recipe

def style : Recipe → Report Style
  | .options entries => make entries
  | .record entries => ofValue (.record entries)
  | .update before entries => before.style >>= fun style => style.withOptions entries

structure AreKnown (resolve : String → Option OptionKey) (entries : List (String × Value)) :
    Prop where
  names : ∀ entry ∈ entries, (resolve entry.1).isSome = true
  finite : ∀ entry ∈ entries, entry.2.isInfinite = false

theorem areKnown_iff (resolve : String → Option OptionKey) (entries : List (String × Value)) :
    AreKnown resolve entries ↔
      (entries.all fun entry => (resolve entry.1).isSome && !entry.2.isInfinite) = true := by
  simp only [List.all_eq_true, Bool.and_eq_true, Bool.not_eq_true']
  exact ⟨fun ⟨names, finite⟩ entry member => ⟨names entry member, finite entry member⟩,
    fun known => ⟨fun entry member => (known entry member).1,
      fun entry member => (known entry member).2⟩⟩

instance (resolve : String → Option OptionKey) (entries : List (String × Value)) :
    Decidable (AreKnown resolve entries) :=
  decidable_of_iff _ (areKnown_iff resolve entries).symm

def IsKnown : Recipe → Prop
  | .options entries => AreKnown OptionKey.ofName? entries
  | .record entries => AreKnown OptionKey.resolve? entries
  | .update before entries => before.IsKnown ∧ AreKnown OptionKey.ofName? entries

/-- Entries that ask for function names which are true or a number other than zero. -/
def AreRefused (resolve : String → Option OptionKey) (entries : List (String × Value)) : Prop :=
  ∃ value, latest resolve entries .additionalFunctionNames = some value ∧ isNumeric value = true

def IsRefused : Recipe → Prop
  | .options entries => AreRefused OptionKey.ofName? entries
  | .record entries => AreRefused OptionKey.resolve? entries
  | .update before entries => before.IsRefused ∨ AreRefused OptionKey.ofName? entries

def AreJson (entries : List (String × Value)) : Prop :=
  ∀ entry ∈ entries, entry.2.isWritable = true

def IsJson : Recipe → Prop
  | .options entries => AreJson entries
  | .record entries => AreJson entries
  | .update before entries => before.IsJson ∧ AreJson entries

def faultOf (resolve : String → Option OptionKey) (entries : List (String × Value)) :
    Option Fault :=
  (latest resolve entries .additionalFunctionNames).bind namesFault?

/-- The first fault on the way. -/
def fault? : Recipe → Option Fault
  | .options entries => faultOf OptionKey.ofName? entries
  | .record entries => faultOf OptionKey.resolve? entries
  | .update before entries => before.fault?.or (faultOf OptionKey.ofName? entries)

theorem latest_mem {resolve : String → Option OptionKey} {entries : List (String × Value)}
    {key : OptionKey} {value : Value} (asked : latest resolve entries key = some value) :
    ∃ entry ∈ entries, entry.2 = value := by
  obtain ⟨entry, last, rfl⟩ := Option.map_eq_some_iff.1 asked
  exact ⟨entry, List.mem_reverse.1 (List.mem_of_find?_eq_some last), rfl⟩

/-- What was read from JSON is refused for having no members, and for nothing else. -/
theorem faultOf_json (resolve : String → Option OptionKey) {entries : List (String × Value)}
    (json : AreJson entries) :
    (AreRefused resolve entries → ∃ kind, faultOf resolve entries = some (.namesKind kind)) ∧
      (¬AreRefused resolve entries → faultOf resolve entries = none) := by
  constructor
  · rintro ⟨value, asked, numeric⟩
    exact ⟨value.kind, by rw [faultOf, asked, Option.bind_some, namesFault?, if_pos numeric]⟩
  · intro allowed
    rw [faultOf, Option.bind_eq_none_iff]
    intro value asked
    have calm : ¬isNumeric value = true := fun numeric => allowed ⟨value, asked, numeric⟩
    obtain ⟨entry, member, rfl⟩ := latest_mem asked
    have short : ¬isOverlong entry.2 = true := by
      have written := json entry member
      cases named : entry.2 <;> simp_all [isOverlong, Value.isWritable]
    rw [namesFault?, if_neg calm, if_neg short]

theorem fault?_json {recipe : Recipe} (json : recipe.IsJson) :
    (recipe.IsRefused → ∃ kind, recipe.fault? = some (.namesKind kind)) ∧
      (¬recipe.IsRefused → recipe.fault? = none) := by
  induction recipe with
  | options entries => exact faultOf_json _ json
  | record entries => exact faultOf_json _ json
  | update before entries ih =>
    obtain ⟨refusedBefore, acceptedBefore⟩ := ih json.1
    obtain ⟨refused, accepted⟩ := faultOf_json OptionKey.ofName? json.2
    rw [fault?]
    by_cases stopped : before.IsRefused
    · obtain ⟨kind, fault⟩ := refusedBefore stopped
      exact ⟨fun _ => ⟨kind, by rw [fault, Option.some_or]⟩,
        fun allowed => absurd (.inl stopped) allowed⟩
    · rw [acceptedBefore stopped, Option.none_or]
      exact ⟨fun asked => refused (asked.resolve_left stopped),
        fun allowed => accepted fun asked => allowed (.inr asked)⟩

theorem ofSettings_entries {resolve : String → Option OptionKey} {entries : List (String × Value)}
    (known : AreKnown resolve entries) (settings : Settings)
    (finite : ∀ key value, settings.lookup key = some value → value.isInfinite = false)
    (calm : (settings.lookup .additionalFunctionNames).bind namesFault? = none) :
    (∀ fault, faultOf resolve entries = some fault →
        (ofSettings (settingsBy resolve entries ++ settings)).outcome = .error fault) ∧
      (faultOf resolve entries = none →
        ∃ style, (ofSettings (settingsBy resolve entries ++ settings)).outcome = .ok style ∧
          style.IsValid) := by
  have look (key : OptionKey) : (settingsBy resolve entries ++ settings).lookup key =
      (latest resolve entries key).or (settings.lookup key) := by
    rw [List.lookup_append, lookup_settingsBy]
  have bounded (key : OptionKey) (value : Value)
      (found : (settingsBy resolve entries ++ settings).lookup key = some value) :
      value.isInfinite = false := by
    rw [look, Option.or_eq_some_iff] at found
    rcases found with asked | ⟨-, before⟩
    · obtain ⟨entry, member, rfl⟩ := latest_mem asked
      exact known.finite entry member
    · exact finite key value before
  have same : ((settingsBy resolve entries ++ settings).lookup .additionalFunctionNames).bind
      namesFault? = faultOf resolve entries := by
    rw [look, faultOf]
    cases latest resolve entries .additionalFunctionNames with
    | none => exact calm
    | some value => rfl
  rw [← same]
  exact ofSettings_cases _ bounded

theorem ofValue_record (entries : List (String × Value)) :
    ofValue (.record entries) = ofRecord entries := by
  cases entries <;> rfl

theorem isInfinite_value (style : Style) (key : OptionKey) :
    (style.value key).isInfinite = false := by
  cases key <;> rfl

theorem namesFault?_value (style : Style) :
    namesFault? (style.value .additionalFunctionNames) = none := by
  have written : Value.areWritable (style.functionNames.map .text) = true := by
    rw [Value.areWritable_eq_all, List.all_map]
    exact List.all_eq_true.2 fun name _ => rfl
  simp [namesFault?, value, isNumeric, isOverlong, written]

end Recipe

theorem Recipe.outcome_cases (recipe : Recipe) (known : recipe.IsKnown) :
    (∀ fault, recipe.fault? = some fault → recipe.style.outcome = .error fault) ∧
      (recipe.fault? = none → ∃ style, recipe.style.outcome = .ok style ∧ style.IsValid) := by
  induction recipe with
  | options entries =>
    rw [Recipe.style, make, changes_known entries [] known.names, Report.pure_bind]
    exact Recipe.ofSettings_entries known [] (by simp) rfl
  | record entries =>
    rw [Recipe.style, Recipe.ofValue_record, ofRecord,
      settingsOfRecord_known entries [] known.names, Report.pure_bind]
    exact Recipe.ofSettings_entries known [] (by simp) rfl
  -- The style before is made already, so only the new entries can raise a fault.
  | update before entries ih =>
    obtain ⟨knownBefore, knownEntries⟩ := known
    obtain ⟨refusedBefore, acceptedBefore⟩ := ih knownBefore
    rw [Recipe.fault?]
    cases stopped : before.fault? with
    | some first =>
      refine ⟨fun fault same => ?_, by simp⟩
      obtain rfl : first = fault := by simpa using same
      exact Report.outcome_bind_error (refusedBefore first stopped) _
    | none =>
      obtain ⟨style, outcome, valid⟩ := acceptedBefore stopped
      have own (key : OptionKey) (value : Value) (found : style.settings.lookup key = some value) :
          style.value key = value := by
        rwa [lookup_settings, Option.some.injEq] at found
      rw [Option.none_or, Recipe.style, Report.outcome_bind outcome, withOptions,
        changes_known entries _ knownEntries.names, Report.pure_bind]
      refine Recipe.ofSettings_entries knownEntries style.settings
        (fun key value found => own key value found ▸ Recipe.isInfinite_value style key) ?_
      rw [lookup_settings]
      exact Recipe.namesFault?_value style

def namesRecipe : Recipe :=
  .update (.record [("keywordCase", .text "Lower")])
    [("max_columns_select", .text " 3"), ("additional_function_names", .text "f, g")]

def numberRecipe : Recipe :=
  .options [("additional_function_names", .int 5)]

end Style

end SqlLayout
