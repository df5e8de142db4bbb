import SqlLayout.Proofs.Lettercase
import SqlLayout.Proofs.Partition

/-! What a token looks like, by the branch of the scanner that made it. `Scans` says once
which branches there are and what each of them has seen; the facts about tokens that later
modules use are read off it. `ReadFrom` ties a token of a whole run to the step that read it
and to the text behind it. -/
namespace SqlLayout.Keyword

mutual

def Phrases.all (property : String → Bool) : Phrases → Bool
  | .node phrase children => phrase.all property && allChildren property children

def allChildren (property : String → Bool) : List (String × Phrases) → Bool
  | [] => true
  | (_, child) :: rest => child.all property && allChildren property rest

end

namespace Phrases

theorem all_of_lookup (property : String → Bool) (children : List (String × Phrases))
    (all : allChildren property children = true) (word : String) (child : Phrases)
    (found : children.lookup word = some child) : child.all property = true := by
  induction children with
  | nil => simp at found
  | cons entry rest ih =>
    obtain ⟨key, first⟩ := entry
    simp only [allChildren, Bool.and_eq_true] at all
    rw [List.lookup_cons] at found
    split at found
    · rw [← Option.some.inj found]
      exact all.1
    · exact ih all.2 found

theorem all_of_step (property : String → Bool) (phrases child : Phrases)
    (all : phrases.all property = true) (word : String)
    (found : phrases.step word = some child) : child.all property = true := by
  obtain ⟨phrase, children⟩ := phrases
  simp only [Phrases.all, Bool.and_eq_true] at all
  exact all_of_lookup property children all.2 (Text.upper word) child found

theorem phrase_of_all (property : String → Bool) (phrases : Phrases) (phrase : String)
    (all : phrases.all property = true) (own : phrases.phrase = some phrase) :
    property phrase = true := by
  obtain ⟨found, children⟩ := phrases
  obtain rfl : found = some phrase := own
  simp only [Phrases.all, Option.all_some, Bool.and_eq_true] at all
  exact all.1

end Phrases

def isPlainPhrase (phrase : String) : Bool :=
  phrase ≠ "" && phrase.toList.all fun c => c.isUpper || c = ' '

theorem commonPhrases_plain : commonPhrases.all isPlainPhrase = true := by
  decide +kernel

end SqlLayout.Keyword

namespace SqlLayout.Token

open Keyword

def isQuoteLead (c : Char) : Bool :=
  isStringMark c || c = 'U' || c = 'u' || c = '&'

theorem quoted?_eq_some (c : Char) (rest : List Char) (lexeme : Lexeme)
    (found : quoted? c rest = some lexeme) :
    ∃ lead quote body kind, c :: rest = lead ++ quote :: body ∧
      (∀ letter ∈ lead, isQuoteLead letter = true) ∧ (quote = '\'' ∨ quote = '"' ∨ quote = '`') ∧
      (kind = .stringLiteral ∨ kind = .quotedIdentifier) ∧
      lexeme = quotedRun kind quote lead.length body := by
  unfold quoted? at found
  split at found
  · rename_i first
    exact ⟨[], '\'', rest, .stringLiteral, by simp [first], by simp, .inl rfl, .inl rfl,
      (Option.some.inj found).symm⟩
  split at found
  · rename_i marked
    obtain ⟨body, rfl⟩ := List.head?_eq_some_iff.1 marked.2
    exact ⟨[c], '\'', body, .stringLiteral, by simp, by simp [isQuoteLead, marked.1], .inl rfl,
      .inl rfl, (Option.some.inj found).symm⟩
  split at found
  · rename_i marked
    obtain ⟨body, rfl⟩ := List.isPrefixOf_iff_prefix.1 marked.2
    refine ⟨[c, '&'], '\'', body, .stringLiteral, by simp, ?_, .inl rfl, .inl rfl,
      (Option.some.inj found).symm⟩
    intro letter member
    rcases marked.1 with first | first <;> simp [first] at member <;>
      rcases member with rfl | rfl <;> rfl
  split at found
  · rename_i first
    exact ⟨[], '"', rest, .quotedIdentifier, by simp [first], by simp, .inr (.inl rfl), .inr rfl,
      (Option.some.inj found).symm⟩
  split at found
  · rename_i first
    exact ⟨[], '`', rest, .quotedIdentifier, by simp [first], by simp, .inr (.inr rfl), .inr rfl,
      (Option.some.inj found).symm⟩
  · simp at found

theorem kind_of_quotedRun (kind : Kind) (quote : Char) (offset : Nat) (rest : List Char) :
    (quotedRun kind quote offset rest).kind = kind := by
  unfold quotedRun
  split <;> rfl

theorem kind_of_quoted? (c : Char) (rest : List Char) (lexeme : Lexeme)
    (found : quoted? c rest = some lexeme) :
    lexeme.kind = .stringLiteral ∨ lexeme.kind = .quotedIdentifier := by
  obtain ⟨lead, quote, body, kind, -, -, -, kinds, rfl⟩ := quoted?_eq_some c rest lexeme found
  rw [kind_of_quotedRun]
  exact kinds

theorem kind_of_blockComment (body : List Char) : (blockComment body).kind = .comment := by
  unfold blockComment
  split <;> rfl

theorem kind_of_bracketed (rest : List Char) :
    (bracketed rest).kind = .quotedIdentifier ∨ (bracketed rest).kind = .operator := by
  unfold bracketed
  simp only
  split
  · exact .inl rfl
  · exact .inr rfl

theorem kind_of_tagged? (rest : List Char) (lexeme : Lexeme)
    (found : tagged? rest = some lexeme) : lexeme.kind = .stringLiteral := by
  unfold tagged? at found
  simp only at found
  generalize (if rest.head?.any Text.isWordStart then spanLength Text.isWord rest else 0) =
    length at found
  split at found
  · split at found
    · rw [← Option.some.inj found]
    · rw [← Option.some.inj found]
  · simp at found

theorem kind_of_dollar? (rest : List Char) (lexeme : Lexeme)
    (found : dollar? rest = some lexeme) :
    lexeme.kind = .placeholder ∨ lexeme.kind = .stringLiteral := by
  have enclosed (close : Char) (body : List Char)
      (given : enclosedPlaceholder? close body = some lexeme) : lexeme.kind = .placeholder := by
    unfold enclosedPlaceholder? at given
    simp only at given
    split at given
    · rw [← Option.some.inj given]
    · simp at given
  unfold dollar? at found
  split at found
  · exact .inl (enclosed _ _ found)
  · exact .inl (enclosed _ _ found)
  · split at found
    · exact .inr (kind_of_tagged? rest lexeme found)
    · left
      rw [← Option.some.inj found]

theorem kind_of_wordLexeme (registry : Registry) (c : Char) (rest : List Char) (length : Nat) :
    (wordLexeme registry c rest length).kind = .reservedWord ∨
      (wordLexeme registry c rest length).kind = .identifier := by
  unfold wordLexeme
  simp only
  split
  · exact .inl rfl
  · split
    · exact .inl rfl
    · exact .inr rfl

theorem kind_of_operatorLexeme (c : Char) (rest : List Char) :
    (operatorLexeme c rest).kind = .operator := by
  unfold operatorLexeme
  split <;> rfl

theorem punctuation?_eq_some (c : Char) (kind : Kind) (found : punctuation? c = some kind) :
    c = '(' ∧ kind = .parenOpen ∨ c = ')' ∧ kind = .parenClose ∨ c = ',' ∧ kind = .comma ∨
      c = ';' ∧ kind = .semicolon := by
  unfold punctuation? at found
  grind

/-- The branches of the scanner, with the kinds that each of them can give. -/
inductive Scans (registry : Registry) (c : Char) (rest : List Char) : Lexeme → Prop
  | blank (isBlank : Text.isBlank c = true) :
      Scans registry c rest { kind := .blank, more := spanLength Text.isBlank rest }
  | line (first : c = '-') (second : rest.head? = some '-') :
      Scans registry c rest (lineComment rest)
  | block (first : c = '/') (second : rest.head? = some '*')
      (kind : (blockComment (rest.drop 1)).kind = .comment) :
      Scans registry c rest (blockComment (rest.drop 1))
  | quoted (lexeme : Lexeme) (found : quoted? c rest = some lexeme)
      (kind : lexeme.kind = .stringLiteral ∨ lexeme.kind = .quotedIdentifier) :
      Scans registry c rest lexeme
  | bracket (first : c = '[')
      (kind : (bracketed rest).kind = .quotedIdentifier ∨ (bracketed rest).kind = .operator) :
      Scans registry c rest (bracketed rest)
  | dollar (first : c = '$') (lexeme : Lexeme) (found : dollar? rest = some lexeme)
      (kind : lexeme.kind = .placeholder ∨ lexeme.kind = .stringLiteral) :
      Scans registry c rest lexeme
  | question (first : c = '?') : Scans registry c rest { kind := .placeholder, more := 0 }
  | bound (first : c = ':') (follows : rest.head?.any Text.isWordStart = true) :
      Scans registry c rest { kind := .placeholder, more := spanLength Text.isWord rest }
  | special (first : c = '@' ∨ c = '#') (follows : spanLength isSpecialNamePart rest ≠ 0) :
      Scans registry c rest { kind := .identifier, more := spanLength isSpecialNamePart rest }
  | punctuation (mark : Kind)
      (first : c = '(' ∧ mark = .parenOpen ∨ c = ')' ∧ mark = .parenClose ∨
        c = ',' ∧ mark = .comma ∨ c = ';' ∧ mark = .semicolon) :
      Scans registry c rest { kind := mark, more := 0 }
  | number (unmarked : marked? c rest = none) (length : Nat)
      (found : numberLength? (c :: rest) = some length) :
      Scans registry c rest { kind := .numberLiteral, more := length - 1 }
  | signed (unmarked : marked? c rest = none) (first : c = '+' ∨ c = '-') (length : Nat)
      (found : numberLength? rest = some length) :
      Scans registry c rest { kind := .numberLiteral, more := length }
  | word (unmarked : marked? c rest = none) (first : Text.isWordStart c = true)
      (kind : (wordLexeme registry c rest (1 + spanLength isNamePart rest)).kind = .reservedWord ∨
        (wordLexeme registry c rest (1 + spanLength isNamePart rest)).kind = .identifier) :
      Scans registry c rest (wordLexeme registry c rest (1 + spanLength isNamePart rest))
  | operator (unmarked : marked? c rest = none) (first : Text.isWordStart c = false)
      (kind : (operatorLexeme c rest).kind = .operator) :
      Scans registry c rest (operatorLexeme c rest)

theorem scans_of_marked? (registry : Registry) (c : Char) (rest : List Char) (lexeme : Lexeme)
    (found : marked? c rest = some lexeme) : Scans registry c rest lexeme := by
  unfold marked? at found
  split at found
  · rename_i isBlank
    obtain rfl := Option.some.inj found
    exact .blank isBlank
  split at found
  · rename_i both
    obtain rfl := Option.some.inj found
    exact .line both.1 both.2
  split at found
  · rename_i both
    obtain rfl := Option.some.inj found
    exact .block both.1 both.2 (kind_of_blockComment _)
  rcases Option.or_eq_some_iff.1 found with quoted | ⟨-, other⟩
  · exact .quoted lexeme quoted (kind_of_quoted? c rest lexeme quoted)
  split at other
  · rename_i first
    obtain rfl := Option.some.inj other
    exact .bracket first (kind_of_bracketed rest)
  split at other
  · rename_i first
    exact .dollar first lexeme other (kind_of_dollar? rest lexeme other)
  split at other
  · rename_i first
    obtain rfl := Option.some.inj other
    exact .question first
  split at other
  · rename_i first
    unfold bound? at other
    split at other
    · rename_i follows
      obtain rfl := Option.some.inj other
      exact .bound first follows
    · simp at other
  split at other
  · rename_i first
    unfold specialName? at other
    split at other
    · simp at other
    · rename_i follows
      obtain rfl := Option.some.inj other
      exact .special first follows
  · obtain ⟨kind, first, rfl⟩ := Option.map_eq_some_iff.1 other
    exact .punctuation kind (punctuation?_eq_some c kind first)

theorem scans_of_scan? (registry : Registry) (last : Option Token) (c : Char) (rest : List Char)
    (lexeme : Lexeme) (found : scan? registry last c rest = some lexeme) :
    Scans registry c rest lexeme := by
  unfold scan? at found
  split at found
  · rename_i marked
    obtain rfl := Option.some.inj found
    exact scans_of_marked? registry c rest _ marked
  rename_i unmarked
  split at found
  · obtain ⟨length, number, rfl⟩ := Option.map_eq_some_iff.1 found
    exact .number unmarked length number
  · obtain rfl := Option.some.inj found
    cases sign : signed? last c rest with
    | some lexeme =>
      unfold signed? at sign
      split at sign
      · rename_i signs
        obtain ⟨length, number, rfl⟩ := Option.map_eq_some_iff.1 sign
        exact .signed unmarked signs.1 length number
      · simp at sign
    | none =>
      rw [Option.getD_none, wordOrOperator]
      by_cases first : Text.isWordStart c = true
      · simp only [wordLength?, if_pos first]
        exact .word unmarked first (kind_of_wordLexeme registry c rest _)
      · simp only [wordLength?, if_neg first]
        exact .operator unmarked (by simpa using first) (kind_of_operatorLexeme c rest)

/-- A token was read where `behind` is left after it. -/
def ReadFrom (registry : Registry) (token : Token) (behind : List Char) : Prop :=
  ∃ c rest lexeme, Scans registry c rest lexeme ∧ token.kind = lexeme.kind ∧
    token.text.toList = c :: rest.take lexeme.more ∧
    token.contents = lexeme.contents.getD token.text ∧ behind = rest.drop lexeme.more

theorem Cursor.exists_scans_of_read (registry : Registry) (cursor after : Cursor) (token : Token)
    (notices : List Notice) (step : cursor.read registry = .token token notices after) :
    ∃ c rest lexeme, cursor.rest = c :: rest ∧ Scans registry c rest lexeme ∧
      token.kind = lexeme.kind ∧ token.text.toList = c :: rest.take lexeme.more ∧
      token.contents = lexeme.contents.getD token.text ∧ after.rest = rest.drop lexeme.more := by
  unfold read at step
  cases ahead : cursor.rest with
  | nil => simp [ahead] at step
  | cons c rest =>
    simp only [ahead] at step
    split at step
    · simp at step
    · rename_i lexeme scanned
      simp only [Reading.token.injEq] at step
      obtain ⟨rfl, -, rfl⟩ := step
      refine ⟨c, rest, lexeme, rfl, scans_of_scan? registry _ c rest lexeme scanned, rfl, ?_, rfl,
        rfl⟩
      exact String.toList_ofList

theorem Cursor.readFrom_of_read (registry : Registry) (cursor after : Cursor) (token : Token)
    (notices : List Notice) (step : cursor.read registry = .token token notices after) :
    ReadFrom registry token after.rest := by
  obtain ⟨c, rest, lexeme, -, read⟩ := exists_scans_of_read registry cursor after token notices step
  exact ⟨c, rest, lexeme, read⟩

/-- Every token of a run was read, with the tokens after it and what the run has left
behind it. -/
theorem Cursor.readFrom_readAll (registry : Registry) (cursor : Cursor) (front back : List Token)
    (token : Token) (cut : (cursor.readAll registry).tokens = front ++ token :: back) :
    ReadFrom registry token
      (back.flatMap (·.text.toList) ++ (cursor.readAll registry).stop.rest) := by
  cases step : cursor.read registry with
  | atEnd =>
    rw [readAll_of_atEnd registry cursor step] at cut
    simp at cut
  | stray =>
    rw [readAll_of_stray registry cursor step] at cut
    simp at cut
  | token first notices after =>
    have shorter := rest_lt_of_read registry cursor after first notices step
    rw [readAll_of_token registry cursor after first notices step] at cut ⊢
    cases front with
    | nil =>
      simp only [List.nil_append, List.cons.injEq] at cut
      obtain ⟨rfl, rest⟩ := cut
      have read := readFrom_of_read registry cursor after first notices step
      obtain ⟨passed, ahead, -, tiles⟩ := readAll_tiles registry after
      rw [ahead, ← tiles.joined, rest] at read
      exact read
    | cons other front =>
      simp only [List.cons_append, List.cons.injEq] at cut
      exact readFrom_readAll registry after front back token cut.2
termination_by cursor.rest.length

theorem readFrom_of_tokens? (registry : Registry) (source : String) (front back : List Token)
    (token : Token) (lexed : tokens? registry source = .ok (front ++ token :: back)) :
    ReadFrom registry token (back.flatMap (·.text.toList)) := by
  obtain ⟨finished, cut⟩ := (tokens?_eq_ok_iff registry source _).1 lexed
  have read := (Cursor.ofSource source).readFrom_readAll registry front back token cut
  rwa [show (Cursor.readAll registry (Cursor.ofSource source)).stop.rest = [] from finished,
    List.append_nil] at read

theorem readFrom_of_mem (registry : Registry) (source : String) (tokens : List Token)
    (lexed : tokens? registry source = .ok tokens) (token : Token) (member : token ∈ tokens) :
    ∃ behind, ReadFrom registry token behind := by
  obtain ⟨front, back, rfl⟩ := List.append_of_mem member
  exact ⟨_, readFrom_of_tokens? registry source front back token lexed⟩

theorem ReadFrom.punctuation {registry : Registry} {token : Token} {behind : List Char}
    (read : ReadFrom registry token behind) (isPunctuation : token.kind.isPunctuation = true) :
    ∃ c, token.text.toList = [c] ∧
      (c = '(' ∧ token.kind = .parenOpen ∨ c = ')' ∧ token.kind = .parenClose ∨
        c = ',' ∧ token.kind = .comma ∨ c = ';' ∧ token.kind = .semicolon) := by
  obtain ⟨c, rest, lexeme, scans, kind, text, -, -⟩ := read
  rw [kind] at isPunctuation ⊢
  cases scans with
  | punctuation mark first => exact ⟨c, by simpa using text, first⟩
  | _ => grind [Kind.isPunctuation, Kind.isWordLike, lineComment]

theorem ReadFrom.comma {registry : Registry} {token : Token} {behind : List Char}
    (read : ReadFrom registry token behind) (isComma : token.kind = .comma) :
    token.text = "," := by
  obtain ⟨c, text, sign⟩ := read.punctuation (by rw [isComma]; rfl)
  rw [isComma] at sign
  simp only [reduceCtorEq, and_false, or_false, false_or, and_true] at sign
  rw [sign] at text
  exact String.toList_injective text

theorem phraseOnward_all (property : String → Bool) (phrases : Phrases) (chars : List Char)
    (length : Nat) (phrase : String) (all : phrases.all property = true)
    (found : phraseOnward phrases chars = some (length, phrase)) : property phrase = true := by
  fun_induction phraseOnward phrases chars generalizing length phrase with
  | case1 => simp at found
  | case2 => simp at found
  | case3 => simp at found
  | case4 phrases chars gap apart wordLength word child step taken further contents onward ih =>
    simp only [Option.some.injEq, Prod.mk.injEq] at found
    rw [← found.2]
    exact ih further contents (Phrases.all_of_step property phrases child all _ step) onward
  | case5 phrases chars gap apart wordLength word child step taken onward ih =>
    obtain ⟨own, ends, equal⟩ := Option.map_eq_some_iff.1 found
    simp only [Prod.mk.injEq] at equal
    rw [← equal.2]
    exact Phrases.phrase_of_all property child own
      (Phrases.all_of_step property phrases child all _ step) ends

theorem contents_of_wordLexeme (registry : Registry) (c : Char) (rest : List Char)
    (visible : Text.isBlank c = false) (phrases : registry.compounds.all isPlainPhrase = true)
    (length : Nat) (positive : 0 < length) (contents : String)
    (given : (wordLexeme registry c rest length).contents = some contents) :
    isPlainPhrase contents = true ∨
      contents ≠ "" ∧
        contents = Text.upper (Text.collapse (String.ofList ((c :: rest).take length))) := by
  unfold wordLexeme at given
  simp only at given
  split at given
  · rename_i further phrase found
    obtain ⟨node, step, onward⟩ := Option.bind_eq_some_iff.1 found
    left
    rw [← Option.some.inj given]
    exact phraseOnward_all isPlainPhrase node _ further phrase
      (Phrases.all_of_step _ _ node phrases _ step) onward
  · split at given
    · right
      rw [← Option.some.inj given]
      refine ⟨?_, rfl⟩
      obtain ⟨more, rfl⟩ := Nat.exists_eq_add_of_lt positive
      exact Style.WordCase.apply_ne_empty .upper _
        (Text.collapse_ne_empty _ c (by simp) visible)
    · simp at given

theorem isBlank_of_unmarked (c : Char) (rest : List Char) (unmarked : marked? c rest = none) :
    Text.isBlank c = false := by
  unfold marked? at unmarked
  split at unmarked
  · simp at unmarked
  · rename_i visible
    simpa using visible

theorem ReadFrom.word {registry : Registry} {token : Token} {behind : List Char}
    (phrases : registry.compounds.all isPlainPhrase = true)
    (read : ReadFrom registry token behind) (wordLike : token.kind.isWordLike = true) :
    (∃ c ∈ token.text.toList, Text.isBlank c = false) ∧ token.contents ≠ "" := by
  obtain ⟨c, rest, lexeme, scans, kind, text, contents, -⟩ := read
  have filled : token.text ≠ "" := by
    intro empty
    simp [empty] at text
  rw [kind] at wordLike
  cases scans with
  | special first follows =>
    refine ⟨⟨c, by simp [text], ?_⟩, ?_⟩
    · rcases first with rfl | rfl <;> decide
    · rw [contents]
      exact filled
  | word unmarked first _ =>
    have visible := isBlank_of_unmarked c rest unmarked
    refine ⟨⟨c, by simp [text], visible⟩, ?_⟩
    rw [contents]
    cases given : (wordLexeme registry c rest (1 + spanLength isNamePart rest)).contents with
    | none => exact filled
    | some called =>
      rcases contents_of_wordLexeme registry c rest visible phrases _ (by omega) called given with
        plain | full
      · simp only [isPlainPhrase, Bool.and_eq_true, decide_eq_true_eq] at plain
        exact plain.1
      · exact full.1
  | _ => grind [Kind.isPunctuation, Kind.isWordLike, lineComment]

end SqlLayout.Token
