import SqlLayout.Proofs.Isolating
import SqlLayout.Proofs.Phrasing
import SqlLayout.Proofs.Rereading

/-! Queries for names, as they are read. A word that is not reserved is read as a name unless a
phrase starts with it, and the few phrases that start with such a word go on with BODY or VIEW.
Behind the names of a list stand a comma or the keyword of the source, so a query for names from
one source is read as its two keywords, its names and its commas. -/
namespace SqlLayout

open Keyword Layout

namespace Token

structure IsFreeWord (name : String) : Prop where
  plain : IsPlainWord name.toList
  noDigit : ∀ c, name.toList.head? = some c → Text.isDigitSign c = false
  free : reservedWords.contains (Text.upper name) = false

/-- A reserved word that no phrase starts with. -/
structure IsLoneKeyword (text : String) : Prop where
  plain : IsPlainWord text.toList
  noDigit : ∀ c, text.toList.head? = some c → Text.isDigitSign c = false
  alone : (commonPhrases.step text).isNone = true
  reserved : reservedWords.contains (Text.upper text) = true

/-- A text that goes on with no word before it: no character of a name comes next, and no word
that a phrase could go on with. -/
structure ClosesWord (suffix : List Char) : Prop where
  joint : JointAhead suffix
  other : ∀ next, ((ahead suffix).map Prod.snd).head? = some next →
    upperWord next ∉ ["BODY", "VIEW"]

section Words

variable {library : Library}

theorem isPlainWord_iff (word : List Char) :
    IsPlainWord word ↔ (word.head?.any Text.isWordStart && word.all isNamePart) = true := by
  rw [Bool.and_eq_true, List.all_eq_true]
  constructor
  · rintro ⟨⟨c, rest, rfl, starts⟩, parts⟩
    exact ⟨by simpa using starts, parts⟩
  · rintro ⟨starts, parts⟩
    cases word with
    | nil => simp at starts
    | cons c rest => exact ⟨⟨c, rest, rfl, by simpa using starts⟩, parts⟩

instance (word : List Char) : Decidable (IsPlainWord word) :=
  decidable_of_iff _ (isPlainWord_iff word).symm

theorem isFreeWord_iff (name : String) :
    IsFreeWord name ↔ IsPlainWord name.toList ∧
      name.toList.head?.any Text.isDigitSign = false ∧
      reservedWords.contains (Text.upper name) = false := by
  rw [Option.any_eq_false]
  exact ⟨fun ⟨plain, noDigit, free⟩ => ⟨plain, fun c head => by simpa using noDigit c head, free⟩,
    fun ⟨plain, noDigit, free⟩ => ⟨plain, fun c head => by simpa using noDigit c head, free⟩⟩

instance (name : String) : Decidable (IsFreeWord name) :=
  decidable_of_iff _ (isFreeWord_iff name).symm

theorem isLoneKeyword_select : IsLoneKeyword "select" where
  plain := by decide
  noDigit := by
    intro c head
    obtain rfl : 's' = c := by simpa using head
    decide
  alone := by decide
  reserved := by decide

theorem isLoneKeyword_from : IsLoneKeyword "from" where
  plain := by decide
  noDigit := by
    intro c head
    obtain rfl : 'f' = c := by simpa using head
    decide
  alone := by decide
  reserved := by decide

theorem IsFreeWord.filled {name : String} (word : IsFreeWord name) : name ≠ "" := by
  rintro rfl
  exact absurd word.plain.length_pos (by simp)

theorem IsLoneKeyword.filled {text : String} (word : IsLoneKeyword text) : text ≠ "" := by
  rintro rfl
  exact absurd word.plain.length_pos (by simp)

/-- A phrase that starts with a word that is not reserved goes on with one of two words. -/
theorem phraseOf_free (name : String) (free : reservedWords.contains (Text.upper name) = false)
    (next : List (List Char))
    (other : ∀ word, next.head? = some word → upperWord word ∉ ["BODY", "VIEW"]) :
    phraseOf (Registry.common library) name.toList next = none := by
  have known : commonPhrases.children.all (fun branch =>
      reservedWords.contains branch.1 ||
        branch.2.children.all fun further => ["BODY", "VIEW"].contains further.1) = true := by
    decide
  rw [phraseOf, String.ofList_toList]
  cases step : (Registry.common library).compounds.step name with
  | none => rfl
  | some child =>
    obtain ⟨front, back, found, -⟩ := List.lookup_eq_some_iff.1 step
    have here := List.all_eq_true.1 known (Text.upper name, child)
      (by rw [show commonPhrases.children = _ from found]; simp)
    rw [free, Bool.false_or] at here
    cases next with
    | nil => rfl
    | cons word rest =>
      have stops : child.step (String.ofList word) = none := by
        cases further : child.step (String.ofList word) with
        | none => rfl
        | some node =>
          obtain ⟨front, back, inside, -⟩ := List.lookup_eq_some_iff.1 further
          have among := List.all_eq_true.1 here (Text.upper (String.ofList word), node)
            (by rw [inside]; simp)
          exact absurd (List.contains_iff_mem.1 among) (other word rfl)
      rw [Option.bind_some, depth, stops]

theorem IsFreeWord.scansAs {name : String} (word : IsFreeWord name) (last : Option Token)
    {suffix : List Char} (closes : ClosesWord suffix) :
    ScansAs (Registry.common library) last name suffix .identifier name := by
  have named : Named (Registry.common library) [name.toList] ((ahead suffix).map Prod.snd)
      .identifier none := by
    refine ⟨name.toList, [], rfl, ?_⟩
    rw [List.nil_append, phraseOf_free name word.free _ closes.other, String.ofList_toList,
      if_neg (by rw [Registry.isReserved_common, word.free]; exact Bool.false_ne_true)]
    exact ⟨rfl, rfl, rfl⟩
  exact (Worded.single word.plain).scansAs word.noDigit _ last suffix closes.joint _ _ named

theorem IsLoneKeyword.scansAs {text : String} (word : IsLoneKeyword text) (last : Option Token)
    (suffix : List Char) (joint : JointAhead suffix) :
    ScansAs (Registry.common library) last text suffix .reservedWord (Text.upper text) := by
  have named : Named (Registry.common library) [text.toList] ((ahead suffix).map Prod.snd)
      .reservedWord (some (upperWord text.toList)) := by
    refine ⟨text.toList, [], rfl, ?_⟩
    have step : (Registry.common library).compounds.step text = none :=
      Option.isNone_iff_eq_none.1 word.alone
    rw [phraseOf, String.ofList_toList, step, Option.bind_none,
      Registry.isReserved_common, if_pos word.reserved]
    exact ⟨rfl, rfl, rfl⟩
  have scans := (Worded.single word.plain).scansAs word.noDigit _ last suffix joint _ _ named
  rwa [Option.getD_some, upperWord, String.ofList_toList] at scans

theorem scansAs_comma (last : Option Token) (suffix : List Char) :
    ScansAs (Registry.common library) last "," suffix .comma "," :=
  ⟨',', [], { kind := .comma, more := 0 }, rfl,
    scan?_of_marked _ _ _ _ _ (marked?_punctuation ',' .comma suffix rfl), rfl, rfl, rfl⟩

theorem jointAhead_blank (rest : List Char) : JointAhead (' ' :: rest) := by
  intro c head
  obtain rfl : ' ' = c := by simpa using head
  decide

theorem closesWord_nil : ClosesWord [] where
  joint := jointAhead_nil
  other := by simp [ahead_nil]

theorem closesWord_comma (rest : List Char) : ClosesWord (',' :: rest) where
  joint := by
    intro c head
    obtain rfl : ',' = c := by simpa using head
    decide
  other := by
    have tight : spanLength Text.isBlank (',' :: rest) = 0 := by
      rw [spanLength, List.takeWhile_cons_of_neg (by decide)]
      rfl
    simp [ahead_of_tight _ tight]

theorem closesWord_from (rest : List Char) :
    ClosesWord ([' '] ++ ("from".toList ++ ' ' :: rest)) where
  joint := jointAhead_blank _
  other := by
    have ends : NameEnds (' ' :: rest) := by
      intro c head
      obtain rfl : ' ' = c := by simpa using head
      decide
    intro next head
    have blank : ∀ c ∈ [' '], Text.isBlank c = true := List.forall_mem_singleton.2 (by decide)
    rw [ahead_gap_word (by simp) blank isLoneKeyword_from.plain _ ends] at head
    obtain rfl : "from".toList = next := by simpa using head
    decide

end Words

end Token

namespace Layout.Placement

def of (gap : List Char) (token : Token) : Placement :=
  ⟨gap, token, token.text⟩

theorem sound_of {gap : List Char} {token : Token} (blank : ∀ c ∈ gap, c = ' ' ∨ c = '\n')
    (filled : token.text ≠ "") : (of gap token).Sound := by
  refine ⟨blank, ?_, filled⟩
  rw [Spelling]
  split
  · exact ⟨.asIs, .inl rfl⟩
  · rfl

end Layout.Placement

namespace Token

open Placement (row row_cons row_nil)

section Rows

variable {library : Library}

def nameToken (name : String) : Token :=
  .plain .identifier name 0

def keywordToken (text : String) : Token :=
  ⟨.reservedWord, text, 0, Text.upper text⟩

def furtherRow (names : List String) : List Placement :=
  names.flatMap fun name => [.of [] commaToken, .of [] (nameToken name)]

def sourceRow (table : String) : List Placement :=
  [.of [' '] (keywordToken "from"), .of [' '] (nameToken table)]

def queryRow (first : String) (others : List String) (table : String) : List Placement :=
  .of [] (keywordToken "select") :: .of [' '] (nameToken first) ::
    (furtherRow others ++ sourceRow table)

theorem furtherRow_cons (name : String) (rest : List String) :
    furtherRow (name :: rest) =
      .of [] commaToken :: .of [] (nameToken name) :: furtherRow rest := rfl

theorem row_sourceRow (table : String) :
    row (sourceRow table) = [' '] ++ ("from".toList ++ ' ' :: table.toList) := by
  simp [sourceRow, Placement.of, nameToken, keywordToken, plain]

theorem row_queryRow (first : String) (others : List String) (table : String) :
    row (queryRow first others table) =
      ("select " ++ ",".intercalate (first :: others) ++ " from " ++ table).toList := by
  have list : first.toList ++ row (furtherRow others ++ sourceRow table) =
      (",".intercalate (first :: others)).toList ++ (" from ".toList ++ table.toList) := by
    induction others generalizing first with
    | nil =>
      rw [show furtherRow [] = [] from rfl, List.nil_append, row_sourceRow]
      simp
    | cons name rest ih =>
      have onward := ih name
      rw [furtherRow_cons, List.cons_append, List.cons_append, row_cons, row_cons]
      simp only [Placement.of, nameToken, plain, commaToken, List.nil_append] at onward ⊢
      rw [onward]
      simp
  have front : row (queryRow first others table) =
      "select ".toList ++ (first.toList ++ row (furtherRow others ++ sourceRow table)) := by
    rw [queryRow, row_cons, row_cons]
    rfl
  rw [front, list]
  simp

theorem closesWord_row (others : List String) (table : String) :
    ClosesWord (row (furtherRow others ++ sourceRow table)) := by
  cases others with
  | nil =>
    rw [show furtherRow [] = [] from rfl, List.nil_append, row_sourceRow]
    exact closesWord_from table.toList
  | cons name rest => exact closesWord_comma _

theorem rereads_name {name : String} (word : IsFreeWord name) {gap : List Char}
    (blank : ∀ c ∈ gap, c = ' ' ∨ c = '\n') {rest : List Placement} (last : Option Token)
    (closes : ClosesWord (row rest))
    (onward : ∀ last, Rereads (Registry.common library) last rest) :
    Rereads (Registry.common library) last (.of gap (nameToken name) :: rest) :=
  .cons (Placement.sound_of blank word.filled) (word.scansAs last closes)
    (by simp [Placement.of, nameToken, plain]) fun again _ => onward _

theorem rereads_keyword {text : String} (word : IsLoneKeyword text) {gap : List Char}
    (blank : ∀ c ∈ gap, c = ' ' ∨ c = '\n') {token : Token} {rest : List Placement}
    (last : Option Token)
    (onward : ∀ last, Rereads (Registry.common library) last (.of [' '] token :: rest)) :
    Rereads (Registry.common library) last
      (.of gap (keywordToken text) :: .of [' '] token :: rest) :=
  .cons (Placement.sound_of blank word.filled)
    (word.scansAs last _ (jointAhead_blank (token.text.toList ++ row rest)))
    (by simp [Placement.of, keywordToken]) fun again _ => onward _

/-- The rest of a query behind its first name, by induction on the names. -/
theorem rereads_further {others : List String} {table : String}
    (words : ∀ name ∈ others, IsFreeWord name) (source : IsFreeWord table)
    (last : Option Token) :
    Rereads (Registry.common library) last (furtherRow others ++ sourceRow table) := by
  induction others generalizing last with
  | nil =>
    refine rereads_keyword isLoneKeyword_from (by simp) last fun last => ?_
    exact rereads_name source (by simp) last closesWord_nil (Rereads.nil _)
  | cons name rest ih =>
    rw [List.forall_mem_cons] at words
    rw [furtherRow_cons, List.cons_append, List.cons_append]
    refine .cons (Placement.sound_of (by simp) (by decide)) (scansAs_comma last _)
      (by simp [Placement.of, commaToken, plain])
      fun again _ => ?_
    exact rereads_name words.1 (by simp) _ (closesWord_row rest table) (ih words.2)

theorem rereads_query {first : String} {others : List String} {table : String}
    (words : ∀ name ∈ first :: others, IsFreeWord name) (source : IsFreeWord table) :
    Rereads (Registry.common library) none (queryRow first others table) := by
  rw [List.forall_mem_cons] at words
  refine rereads_keyword isLoneKeyword_select (by simp) none fun last => ?_
  exact rereads_name words.1 (by simp) last (closesWord_row others table)
    (rereads_further words.2 source)

end Rows

end Token

structure NameQuery where
  select : Token
  first : Token
  others : List (Token × Token)
  origin : Token
  table : Token
  select_reserved : select.kind = .reservedWord
  select_contents : select.contents = "SELECT"
  origin_reserved : origin.kind = .reservedWord
  origin_contents : origin.contents = "FROM"
  commas : ∀ part ∈ others, part.1.kind = .comma
  names : ∀ name ∈ table :: first :: others.map Prod.snd,
    name.kind = .identifier ∧ name.contents = name.text ∧ name.text ≠ ""

namespace NameQuery

def columns (query : NameQuery) : List Token :=
  query.first :: query.others.map Prod.snd

def further (query : NameQuery) : List Token :=
  query.others.flatMap fun part => [part.1, part.2]

def tokens (query : NameQuery) : List Token :=
  query.select :: query.first :: (query.further ++ [query.origin, query.table])

theorem tokens_eq_append (query : NameQuery) :
    query.tokens =
      query.select :: query.first :: (query.further ++ [query.origin]) ++ [query.table] := by
  simp [tokens]

theorem further_kind (query : NameQuery) (token : Token) (member : token ∈ query.further) :
    token.kind = .comma ∨ token.kind = .identifier := by
  obtain ⟨part, stands, inside⟩ := List.mem_flatMap.1 member
  rcases List.mem_cons.1 inside with rfl | second
  · exact .inl (query.commas part stands)
  · have among := List.mem_map_of_mem (f := Prod.snd) stands
    rw [List.mem_singleton.1 second]
    exact .inr (query.names part.2 (by simp [among])).1

theorem token_kind (query : NameQuery) (token : Token) (member : token ∈ query.tokens) :
    token.kind = .comma ∨ token.kind = .identifier ∨
      token.kind = .reservedWord ∧ (token.contents = "SELECT" ∨ token.contents = "FROM") := by
  rw [tokens, List.mem_cons, List.mem_cons, List.mem_append] at member
  rcases member with rfl | rfl | inFurther | last
  · exact .inr (.inr ⟨query.select_reserved, .inl query.select_contents⟩)
  · exact .inr (.inl (query.names _ (by simp)).1)
  · rcases query.further_kind token inFurther with comma | name
    · exact .inl comma
    · exact .inr (.inl name)
  · rcases List.mem_cons.1 last with rfl | table
    · exact .inr (.inr ⟨query.origin_reserved, .inr query.origin_contents⟩)
    · rw [List.mem_singleton.1 table]
      exact .inr (.inl (query.names _ (by simp)).1)

theorem columns_free (query : NameQuery) (token : Token)
    (member : token ∈ query.first :: query.further) : token.isReserved = false := by
  rcases List.mem_cons.1 member with rfl | inFurther
  · simp [Token.isReserved, (query.names query.first (by simp)).1]
  · rcases query.further_kind token inFurther with kind | kind <;> simp [Token.isReserved, kind]

end NameQuery

namespace Token

theorem exists_further (others : List String) (rest : List Placement) (tokens : List Token)
    (read : List.Forall₂ ReadAs (furtherRow others ++ rest) tokens) :
    ∃ (parts : List (Token × Token)) (left : List Token),
      tokens = parts.flatMap (fun part => [part.1, part.2]) ++ left ∧
      List.Forall₂ ReadAs rest left ∧
      (∀ part ∈ parts, part.1.kind = .comma ∧ part.2.kind = .identifier ∧
        part.2.contents = part.2.text) ∧
      parts.map (fun part => part.2.text) = others := by
  induction others generalizing tokens with
  | nil => exact ⟨[], tokens, rfl, read, by simp, rfl⟩
  | cons name others ih =>
    rw [furtherRow_cons, List.cons_append, List.cons_append] at read
    obtain ⟨comma, behindComma, isComma, later, rfl⟩ := List.forall₂_cons_left_iff.1 read
    obtain ⟨word, behindName, isWord, onward, rfl⟩ := List.forall₂_cons_left_iff.1 later
    obtain ⟨parts, left, rfl, leftRead, kinds, texts⟩ := ih behindName onward
    refine ⟨(comma, word) :: parts, left, rfl, leftRead, ?_, ?_⟩
    · rw [List.forall_mem_cons]
      exact ⟨⟨isComma.kind, isWord.kind, isWord.contents.trans isWord.text.symm⟩, kinds⟩
    · rw [List.map_cons, texts, isWord.text]
      rfl

/-- The text of a query for names is read as the tokens of one. -/
theorem exists_nameQuery (library : Library) {first : String} {others : List String}
    {table : String} (words : ∀ name ∈ first :: others, IsFreeWord name)
    (source : IsFreeWord table) :
    ∃ (tokens : List Token) (query : NameQuery), tokens? (Registry.common library)
        ("select " ++ ",".intercalate (first :: others) ++ " from " ++ table) = .ok tokens ∧
      visible tokens = query.tokens ∧ query.columns.map Token.text = first :: others ∧
      query.table.text = table := by
  obtain ⟨relexed, notices, stop, finished, run, read⟩ := rereads_query words source 0
  rw [row_queryRow] at run
  obtain ⟨select, afterSelect, isSelect, reads, whole⟩ := List.forall₂_cons_left_iff.1 read
  obtain ⟨name, afterName, isName, readFurther, rfl⟩ := List.forall₂_cons_left_iff.1 reads
  obtain ⟨parts, left, rfl, readSource, kinds, texts⟩ := exists_further others _ _ readFurther
  obtain ⟨origin, afterOrigin, isOrigin, readTable, rfl⟩ :=
    List.forall₂_cons_left_iff.1 readSource
  obtain ⟨last, nothing, isTable, done, rfl⟩ := List.forall₂_cons_left_iff.1 readTable
  obtain rfl := List.forall₂_nil_left_iff.1 done
  have nameText : name.text = first := isName.text
  have tableText : last.text = table := isTable.text
  rw [List.forall_mem_cons] at words
  let query : NameQuery :=
    { select, first := name, others := parts, origin, table := last
      select_reserved := isSelect.kind
      select_contents := isSelect.contents.trans (by decide)
      origin_reserved := isOrigin.kind
      origin_contents := isOrigin.contents.trans (by decide)
      commas := fun part member => (kinds part member).1
      names := by
        rw [List.forall_mem_cons, List.forall_mem_cons, List.forall_mem_map]
        refine ⟨⟨isTable.kind, isTable.contents.trans isTable.text.symm, ?_⟩,
          ⟨isName.kind, isName.contents.trans isName.text.symm, ?_⟩, fun part member => ?_⟩
        · exact tableText ▸ source.filled
        · exact nameText ▸ words.1.filled
        · refine ⟨(kinds part member).2.1, (kinds part member).2.2, ?_⟩
          refine (words.2 part.2.text ?_).filled
          rw [← texts]
          exact List.mem_map_of_mem member }
  refine ⟨relexed, query, ?_, whole, ?_, tableText⟩
  · have ended : lex (Registry.common library)
        ("select " ++ ",".intercalate (first :: others) ++ " from " ++ table) =
          ⟨relexed, notices, stop⟩ := run
    rw [tokens?, ended]
    simp [Cursor.Run.isComplete, finished]
  · simp only [NameQuery.columns, List.map_cons, List.map_map, nameText, query]
    rw [← texts]
    rfl

end Token

end SqlLayout
