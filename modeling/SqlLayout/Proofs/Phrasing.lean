import SqlLayout.Proofs.Respelling
import SqlLayout.Proofs.Severing

/-! Words and phrases. Where the scanner comes to a word, it takes the longest phrase that the
words from there on begin with, whatever blanks stand between them, or else the one word. It
goes down the tree of phrases while it reads, and so never sees the words as a list; the
phrase it ends with is the one that a search in the list finds. A first word would count as a
phrase there and not here, but no phrase has fewer than two words. -/
namespace SqlLayout.Text

theorem fieldChars_intercalate (words : List (List Char)) (filled : ∀ word ∈ words, word ≠ [])
    (visible : ∀ word ∈ words, ∀ c ∈ word, isBlank c = false) :
    fieldChars ([' '].intercalate words) = words := by
  have space : isBlank ' ' = true := by decide
  induction words with
  | nil => rfl
  | cons word rest ih =>
    rw [List.forall_mem_cons] at filled visible
    cases rest with
    | nil => simpa using fieldChars_word word [] filled.1 visible.1 (by simp)
    | cons next others =>
      rw [List.intercalate_cons_cons, List.append_assoc, fieldChars_word word _ filled.1 visible.1,
        List.singleton_append, fieldChars_blank ' ' _ space, ih filled.2 visible.2]
      intro c head
      obtain rfl : ' ' = c := by simpa using head
      exact space

end SqlLayout.Text

namespace SqlLayout.Keyword

theorem commonPhrases_several (word : String) (child : Phrases)
    (step : commonPhrases.step word = some child) : child.phrase = none := by
  have first : commonPhrases.children.all (·.2.phrase.isNone) = true := by decide
  obtain ⟨front, back, found, -⟩ := List.lookup_eq_some_iff.1 step
  have here := List.all_eq_true.1 first (Text.upper word, child) (by simp [found])
  simpa using here

end SqlLayout.Keyword

namespace SqlLayout.Token

open Keyword Text

/-- The words at the front of a text, as many as there are with nothing but blanks between
neighbours. -/
def WordRun (words : List (List Char)) (chars : List Char) : Prop :=
  ∃ front behind, chars = front ++ behind ∧ Worded words front ∧ NameEnds behind ∧
    ∀ gap others, behind = gap ++ others → gap ≠ [] → (∀ c ∈ gap, Text.isBlank c = true) →
      wordLength? others = none

theorem ahead_eq_nil_iff (chars : List Char) :
    ahead chars = [] ↔ ∀ gap others, chars = gap ++ others → gap ≠ [] →
      (∀ c ∈ gap, Text.isBlank c = true) → wordLength? others = none := by
  constructor
  · rintro nothing gap others rfl apart blank
    cases found : wordLength? others with
    | none => rfl
    | some length =>
      obtain ⟨plain, ends⟩ := exists_plainWord others length found
      have ahead := ahead_gap_word apart blank plain (others.drop length) ends
      rw [List.take_append_drop, nothing] at ahead
      simp at ahead
  · intro stops
    by_cases tight : spanLength Text.isBlank chars = 0
    · exact ahead_of_tight chars tight
    · refine ahead_of_none chars ?_
      refine stops _ _ (List.take_append_drop _ chars).symm ?_
        (belongs_of_mem_span Text.isBlank chars)
      intro nothing
      rw [← length_take_span, nothing] at tight
      exact tight rfl

theorem IsPlainWord.unique {first second before behind : List Char} (plain : IsPlainWord first)
    (other : IsPlainWord second) (ends : NameEnds before) (endsToo : NameEnds behind)
    (same : first ++ before = second ++ behind) : first = second ∧ before = behind := by
  have length := plain.wordLength? before ends
  rw [same, other.wordLength? behind endsToo, Option.some.injEq] at length
  exact List.append_inj same length.symm

namespace WordRun

variable {words : List (List Char)} {chars : List Char}

theorem ahead (run : WordRun words chars) :
    ∃ word behind, chars = word ++ behind ∧ IsPlainWord word ∧ NameEnds behind ∧
      words = word :: (Token.ahead behind).map Prod.snd := by
  obtain ⟨front, behind, rfl, worded, ends, stops⟩ := run
  obtain ⟨word, between, others, steps, rfl, plain, rfl, endsThere, onward, names, -⟩ :=
    worded.ahead behind ends
  refine ⟨word, between ++ behind, by rw [List.append_assoc], plain, endsThere, ?_⟩
  rw [onward, (ahead_eq_nil_iff behind).2 stops, List.append_nil, names]

theorem of_append {first : List (List Char)} {front behind : List Char}
    (run : WordRun words (front ++ behind)) (worded : Worded first front)
    (ends : NameEnds behind) : words = first ++ (Token.ahead behind).map Prod.snd := by
  obtain ⟨word, between, others, steps, rfl, plain, rfl, endsThere, onward, names, -⟩ :=
    worded.ahead behind ends
  obtain ⟨own, rest, whole, ownPlain, ownEnds, rfl⟩ := run.ahead
  rw [List.append_assoc] at whole
  obtain ⟨rfl, rfl⟩ := plain.unique ownPlain endsThere ownEnds whole
  rw [onward, List.map_append, names]
  rfl

theorem exists_of_wordLength? (length : Nat) (found : wordLength? chars = some length) :
    ∃ words, WordRun words chars := by
  obtain ⟨plain, ends⟩ := exists_plainWord chars length found
  obtain ⟨words, worded, many, names, endsThere⟩ :=
    exists_worded _ _ plain ends (Token.ahead (chars.drop length)).length le_rfl
  refine ⟨_, _, _, ?_, worded, endsThere, ?_⟩
  · rw [List.append_assoc, List.take_append_drop, List.take_append_drop]
  · rw [← ahead_eq_nil_iff]
    have total := congrArg List.length names
    rw [List.length_append, List.length_map, List.length_map, many] at total
    exact List.length_eq_zero_iff.1 (by omega)

end WordRun

/-- Going down the tree word by word ends at the phrase that a search finds. -/
theorem depth_longestMatch (phrases : Phrases) (words : List (List Char)) :
    (depth phrases words).map Prod.snd = phrases.longestMatch (words.map String.ofList) := by
  induction words generalizing phrases with
  | nil => simp [depth]
  | cons word rest ih =>
    rw [List.map_cons, Phrases.longestMatch_cons, depth]
    cases phrases.step (String.ofList word) with
    | none => rfl
    | some child =>
      rw [Option.bind_some, ← ih child]
      simp only
      cases depth child rest with
      | none => cases child.phrase <;> rfl
      | some found => rfl

theorem phraseOf_longestMatch (registry : Registry) (common : registry.compounds = commonPhrases)
    (word : List Char) (others : List (List Char)) :
    (phraseOf registry word others).map Prod.snd =
      registry.compounds.longestMatch ((word :: others).map String.ofList) := by
  rw [List.map_cons, Phrases.longestMatch_cons, phraseOf]
  cases step : registry.compounds.step (String.ofList word) with
  | none => rfl
  | some child =>
    have none := commonPhrases_several (String.ofList word) child (common ▸ step)
    rw [Option.bind_some, Option.bind_some, depth_longestMatch, none, Option.or_none]

theorem IsPlainWord.upper_visible {word : List Char} (plain : IsPlainWord word) :
    (upperWord word).toList ≠ [] ∧ ∀ c ∈ (upperWord word).toList, Text.isBlank c = false := by
  obtain ⟨first, rest, rfl, -⟩ := plain.start
  constructor
  · intro nothing
    refine Style.WordCase.apply_ne_empty .upper (String.ofList (first :: rest)) (by simp) ?_
    exact String.toList_eq_nil_iff.1 nothing
  · intro c member
    rcases Style.WordCase.mem_apply .upper _ c member with kept | letter
    · exact isBlank_of_isNamePart c (plain.parts c (by simpa using kept))
    · exact isBlank_of_isLetterCode c letter

theorem Worded.plain {words : List (List Char)} {chars : List Char} (worded : Worded words chars)
    (word : List Char) (member : word ∈ words) : IsPlainWord word := by
  induction worded with
  | single plain => rwa [List.mem_singleton.1 member]
  | cons plain _ _ _ ih =>
    rcases List.mem_cons.1 member with rfl | later
    · exact plain
    · exact ih later

theorem Worded.eq_of_single {word chars : List Char} (worded : Worded [word] chars) :
    chars = word := by
  cases worded with
  | single => rfl
  | cons _ _ _ more => cases more

theorem Worded.fields_length {words : List (List Char)} {chars : List Char}
    (worded : Worded words chars) :
    (fields (" ".intercalate (words.map upperWord))).length = words.length := by
  have shown (chars : List Char) (member : chars ∈ (words.map upperWord).map String.toList) :
      chars ≠ [] ∧ ∀ c ∈ chars, Text.isBlank c = false := by
    obtain ⟨text, inside, rfl⟩ := List.mem_map.1 member
    obtain ⟨word, inWords, rfl⟩ := List.mem_map.1 inside
    exact (worded.plain word inWords).upper_visible
  rw [fields, List.length_map, String.toList_intercalate,
    show " ".toList = [' '] from rfl,
    fieldChars_intercalate _ (fun word member => (shown word member).1)
      fun word member => (shown word member).2, List.length_map, List.length_map]

/-- What a token is called that begins a run of words: a phrase of some of them, or the first
word alone. -/
def CalledBy (registry : Registry) (words : List (List Char)) (token : Token) : Prop :=
  match registry.compounds.longestMatch (words.map String.ofList) with
  | some phrase =>
    token.kind = .reservedWord ∧ token.contents = phrase ∧
      (fields phrase).length ≤ words.length ∧
      Worded (words.take (fields phrase).length) token.text.toList
  | none =>
    words.head? = some token.text.toList ∧
      if registry.isReserved token.text then
        token.kind = .reservedWord ∧ token.contents = upper token.text
      else token.kind = .identifier ∧ token.contents = token.text

theorem Named.calledBy {registry : Registry} (common : registry.compounds = commonPhrases)
    {words next : List (List Char)} {token : Token} {contents : Option String}
    (worded : Worded words token.text.toList)
    (named : Named registry words next token.kind contents)
    (given : token.contents = contents.getD token.text) :
    CalledBy registry (words ++ next) token := by
  have spells := Registry.spells_of_common common
  have called := named.contents spells
  obtain ⟨word, others, rfl, facts⟩ := named
  rw [CalledBy, List.cons_append, ← phraseOf_longestMatch registry common word (others ++ next)]
  cases found : phraseOf registry word (others ++ next) with
  | some pair =>
    obtain ⟨count, phrase⟩ := pair
    rw [found] at facts
    obtain ⟨-, reserved, rfl⟩ := facts
    rw [Option.map_some]
    have size := worded.fields_length
    rw [← Option.some.inj (called reserved)] at size
    refine ⟨reserved, given, ?_, ?_⟩
    · rw [size, ← List.cons_append, List.length_append]
      exact Nat.le_add_right _ _
    · rwa [size, ← List.cons_append, List.take_left]
  | none =>
    rw [found] at facts
    obtain ⟨rfl, facts⟩ := facts
    have text := worded.eq_of_single
    have same : String.ofList word = token.text := by rw [← text, String.ofList_toList]
    refine ⟨by rw [text]; rfl, ?_⟩
    rw [same] at facts
    split at facts
    · rename_i reserved
      rw [if_pos reserved]
      exact ⟨facts.1, by rw [given, facts.2, upperWord, same]; rfl⟩
    · rename_i free
      rw [if_neg free]
      exact ⟨facts.1, by rw [given, facts.2]; rfl⟩

/-- The scanner comes to a word: the first characters decide nothing else, no number has to
start here, and there is no sign with its number. -/
def AtWord (last : Option Token) (chars : List Char) : Prop :=
  ∃ c rest, chars = c :: rest ∧ marked? c rest = none ∧ startsNumber c rest = false ∧
    signed? last c rest = none ∧ (wordLength? chars).isSome = true

theorem AtWord.scan? {last : Option Token} {c : Char} {rest : List Char}
    (atWord : AtWord last (c :: rest)) (registry : Registry) :
    isWordStart c = true ∧ Token.scan? registry last c rest =
      some (wordLexeme registry c rest (1 + spanLength isNamePart rest)) := by
  obtain ⟨first, others, whole, unmarked, noNumber, unsigned, word⟩ := atWord
  obtain ⟨rfl, rfl⟩ := List.cons.inj whole
  have starts : isWordStart c = true := by
    by_contra other
    simp [wordLength?, other] at word
  refine ⟨starts, ?_⟩
  rw [scan?_of_unmarked registry last c rest unmarked noNumber, unsigned, wordOrOperator,
    wordLength?, if_pos starts]
  rfl

theorem AtWord.calledBy {registry : Registry} (common : registry.compounds = commonPhrases)
    {cursor : Cursor} (atWord : AtWord cursor.last cursor.rest) (words : List (List Char))
    (run : WordRun words cursor.rest) :
    ∃ token notices after, cursor.read registry = .token token notices after ∧
      cursor.Advances token after ∧ CalledBy registry words token := by
  obtain ⟨position, chars, last⟩ := cursor
  cases chars with
  | nil => obtain ⟨c, rest, nothing, -⟩ := atWord; simp at nothing
  | cons c rest =>
    obtain ⟨starts, found⟩ := atWord.scan? registry
    obtain ⟨first, worded, ends, named⟩ := named_of_wordLexeme registry c rest starts _ rfl
    obtain ⟨notices, read⟩ := Cursor.read_of_scan? registry position last c rest _ found
    generalize wordLexeme registry c rest (1 + spanLength isNamePart rest) = lexeme at *
    have text : (Cursor.tokenOf position c rest lexeme).text.toList = c :: rest.take lexeme.more :=
      String.toList_ofList
    have whole : c :: rest = (c :: rest.take lexeme.more) ++ rest.drop lexeme.more := by simp
    refine ⟨_, notices, _, read, Cursor.advances_of_read registry _ _ _ _ read, ?_⟩
    rw [whole] at run
    rw [run.of_append worded ends]
    rw [← text] at worded
    exact named.calledBy common worded rfl

theorem ReadFrom.contents_eq {registry : Registry} {token : Token} {behind : List Char}
    (spells : registry.compounds.spells [] = true) (read : ReadFrom registry token behind) :
    token.contents = if token.isReserved then upper (Text.collapse token.text) else token.text := by
  by_cases reserved : token.isReserved = true
  · have kind : token.kind = .reservedWord := by simpa [isReserved] using reserved
    rw [if_pos reserved]
    cases read.wordRead (by rw [kind]; rfl) with
    | words words given worded ends named contents free =>
      rw [contents, named.contents spells kind, worded.upper_collapse]
      rfl
    | special _ _ _ _ _ _ _ other => simp [kind] at other
  · rw [if_neg reserved]
    exact read.contents_eq_text (by simpa using reserved)

/-- Where the scanner comes to a word, it reads the longest of the common phrases that the run of
words from there begins with, from its first to its last word, or else the first word alone. So
a reserved word is always called by its text in upper case with single spaces, and every other
token by its text. -/
theorem words_read (registry : Registry) (phrases : registry.compounds = commonPhrases) :
    (∀ cursor : Cursor, AtWord cursor.last cursor.rest →
      (∃ words, WordRun words cursor.rest) ∧
      ∀ words, WordRun words cursor.rest → ∃ token notices after,
        cursor.read registry = .token token notices after ∧
        cursor.Advances token after ∧ CalledBy registry words token) ∧
    ∀ source, ∀ token ∈ (lex registry source).tokens,
      token.contents =
        if token.isReserved then upper (Text.collapse token.text) else token.text := by
  refine ⟨fun cursor atWord => ⟨?_, atWord.calledBy phrases⟩, fun source token member => ?_⟩
  · obtain ⟨-, -, -, -, -, -, word⟩ := atWord
    obtain ⟨length, found⟩ := Option.isSome_iff_exists.1 word
    exact WordRun.exists_of_wordLength? length found
  · obtain ⟨front, back, cut⟩ := List.append_of_mem member
    have read := Cursor.readFrom_readAll _ (.ofSource source) front back token cut
    exact read.contents_eq (Registry.spells_of_common phrases)

theorem words_read_phrase :
    let source := "Is  not\nnull or".toList
    let words := ["Is".toList, "not".toList, "null".toList, "or".toList]
    let phrase : Token := ⟨.reservedWord, "Is  not\nnull", 0, "IS NOT NULL"⟩
    WordRun words source ∧
      (⟨0, source, none⟩ : Cursor).read (.common {}) =
        .token phrase [] ⟨12, " or".toList, some phrase⟩ ∧
      CalledBy (.common {}) words phrase := by
  intro source words phrase
  have plain (word : List Char) (starts : word.head?.any isWordStart = true)
      (parts : word.all isNamePart = true) : IsPlainWord word := by
    cases word with
    | nil => simp at starts
    | cons c rest => exact ⟨⟨c, rest, rfl, by simpa using starts⟩, by simpa using parts⟩
  have blank (gap : List Char) (all : gap.all Text.isBlank = true) :
      ∀ c ∈ gap, Text.isBlank c = true :=
    List.all_eq_true.1 all
  have worded : Worded words source :=
    .cons (plain _ (by decide) (by decide)) (by decide) (blank "  ".toList (by decide)) <|
      .cons (plain _ (by decide) (by decide)) (by decide) (blank "\n".toList (by decide)) <|
        .cons (plain _ (by decide) (by decide)) (by decide) (blank " ".toList (by decide)) <|
          .single (plain _ (by decide) (by decide))
  have run : WordRun words source :=
    ⟨_, [], (List.append_nil _).symm, worded, by simp [NameEnds], by simp⟩
  have read : (⟨0, source, none⟩ : Cursor).read (.common {}) =
      .token phrase [] ⟨12, " or".toList, some phrase⟩ := by
    have found : scan? (.common {}) none 'I' "s  not\nnull or".toList =
        some { kind := .reservedWord, more := 11, contents := some "IS NOT NULL" } := by
      decide +kernel
    rw [show source = 'I' :: "s  not\nnull or".toList from rfl, Cursor.read]
    simp only [found]
    rfl
  have atWord : AtWord none source :=
    ⟨'I', "s  not\nnull or".toList, rfl, by decide +kernel, by decide, by decide, by decide⟩
  obtain ⟨token, notices, after, same, -, called⟩ :=
    ((words_read (.common {}) rfl).1 ⟨0, source, none⟩ atWord).2 words run
  obtain ⟨rfl, -, -⟩ : token = phrase ∧ _ := by simpa using same.symm.trans read
  exact ⟨run, read, called⟩

end SqlLayout.Token
