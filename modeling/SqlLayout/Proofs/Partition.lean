import Mathlib.Data.List.Chain
import SqlLayout.Token.Lexer
import SqlLayout.Token.Stream

/-! Lexing cuts a text into consecutive pieces. The first part bounds every lexeme by the
characters that lie ahead of it, branch by branch; reading a token is then one step along
the text, and a run of such steps tiles the text up to where reading stops. Which kind a
token gets plays no part here. -/
namespace SqlLayout.Token

open Keyword

theorem spanLength_le (belongs : Char → Bool) (chars : List Char) :
    spanLength belongs chars ≤ chars.length :=
  (List.takeWhile_sublist belongs).length_le

theorem drop_spanLength (belongs : Char → Bool) (chars : List Char) :
    chars.drop (spanLength belongs chars) = chars.dropWhile belongs := by
  induction chars with
  | nil => rfl
  | cons c rest ih =>
    by_cases here : belongs c = true
    · simpa [spanLength, here] using ih
    · simp [spanLength, here]

theorem take_spanLength (belongs : Char → Bool) (chars : List Char) :
    chars.take (spanLength belongs chars) = chars.takeWhile belongs := by
  have split := List.takeWhile_append_dropWhile (p := belongs) (l := chars)
  have front := List.take_append_drop (spanLength belongs chars) chars
  rw [drop_spanLength] at front
  exact List.append_cancel_right (front.trans split.symm)

theorem belongs_of_mem_span (belongs : Char → Bool) (chars : List Char) (c : Char)
    (member : c ∈ chars.take (spanLength belongs chars)) : belongs c = true := by
  rw [take_spanLength] at member
  exact List.all_eq_true.1 List.all_takeWhile c member

theorem findSequence_le (wanted chars : List Char) (place : Nat) (filled : wanted ≠ [])
    (found : Text.findSequence wanted chars = some place) :
    place + wanted.length ≤ chars.length := by
  have occurs := Text.findSequence_occurs wanted chars place found
  have fits := (List.isPrefixOf_iff_prefix.1 occurs).length_le
  have positive := List.length_pos_iff.2 filled
  rw [List.length_drop] at fits
  omega

theorem closeQuote_le (quote : Char) (chars : List Char) (length : Nat)
    (found : closeQuote quote chars = some length) : length ≤ chars.length := by
  fun_induction closeQuote quote chars generalizing length with
  | case1 => simp at found
  | case2 => simp_all
  | case3 => simp at found
  | case4 rest ih =>
    obtain ⟨inner, step, rfl⟩ := Option.map_eq_some_iff.1 found
    have bound := ih inner step
    simp only [List.length_cons]
    omega
  | case5 => simp_all
  | case6 c next rest differs ih =>
    obtain ⟨inner, step, rfl⟩ := Option.map_eq_some_iff.1 found
    have bound := ih inner step
    simp only [List.length_cons] at bound ⊢
    omega

theorem quotedRun_more_le (kind : Kind) (quote : Char) (offset : Nat) (rest : List Char) :
    (quotedRun kind quote offset rest).more ≤ offset + rest.length := by
  unfold quotedRun
  split
  · rename_i length found
    have bound := closeQuote_le quote rest length found
    exact Nat.add_le_add_left bound offset
  · exact le_rfl

theorem quoted?_more_le (c : Char) (rest : List Char) (lexeme : Lexeme)
    (found : quoted? c rest = some lexeme) : lexeme.more ≤ rest.length := by
  have plain (kind : Kind) (quote : Char) : (quotedRun kind quote 0 rest).more ≤ rest.length := by
    simpa using quotedRun_more_le kind quote 0 rest
  -- A prefix of `offset` characters is known to be there, so the rest is that much shorter.
  have prefixed (offset : Nat) (there : offset ≤ rest.length) :
      (quotedRun .stringLiteral '\'' offset (rest.drop offset)).more ≤ rest.length := by
    have bound := quotedRun_more_le .stringLiteral '\'' offset (rest.drop offset)
    rw [List.length_drop] at bound
    omega
  unfold quoted? at found
  split at found
  · obtain rfl := Option.some.inj found
    exact plain _ _
  split at found
  · rename_i marked
    obtain rfl := Option.some.inj found
    obtain ⟨tail, rfl⟩ := List.head?_eq_some_iff.1 marked.2
    exact prefixed 1 (by simp)
  split at found
  · rename_i marked
    obtain rfl := Option.some.inj found
    exact prefixed 2 (List.isPrefixOf_iff_prefix.1 marked.2).length_le
  split at found
  · obtain rfl := Option.some.inj found
    exact plain _ _
  split at found
  · obtain rfl := Option.some.inj found
    exact plain _ _
  · simp at found

theorem blockComment_more_le (body : List Char) :
    (blockComment body).more ≤ body.length + 1 := by
  unfold blockComment
  split
  · rename_i length found
    have bound := findSequence_le ['*', '/'] body length (by simp) found
    simp only [List.length_cons, List.length_nil] at bound ⊢
    omega
  · exact le_rfl

theorem bracketed_more_le (rest : List Char) : (bracketed rest).more ≤ rest.length := by
  unfold bracketed
  simp only
  split
  · rename_i closed
    exact closed.1
  · exact Nat.zero_le _

theorem enclosedPlaceholder?_more_le (close : Char) (body : List Char) (lexeme : Lexeme)
    (found : enclosedPlaceholder? close body = some lexeme) :
    lexeme.more ≤ body.length + 1 := by
  unfold enclosedPlaceholder? at found
  simp only at found
  split at found
  · rename_i closed
    obtain rfl := Option.some.inj found
    have inside := closed.1
    simp only
    omega
  · simp at found

theorem tagged?_more_le (rest : List Char) (lexeme : Lexeme)
    (found : tagged? rest = some lexeme) : lexeme.more ≤ rest.length := by
  unfold tagged? at found
  simp only at found
  generalize (if rest.head?.any Text.isWordStart then spanLength Text.isWord rest else 0) = length
    at found
  split at found
  · rename_i dollar
    obtain ⟨tail, after⟩ := List.head?_eq_some_iff.1 dollar
    have inside : length < rest.length := by
      have shorter := congrArg List.length after
      simp only [List.length_drop, List.length_cons] at shorter
      omega
    split at found
    · rename_i distance closed
      obtain rfl := Option.some.inj found
      have bound := findSequence_le _ _ distance (by simp) closed
      simp only [List.length_drop, List.length_cons, List.length_take] at bound ⊢
      omega
    · obtain rfl := Option.some.inj found
      exact le_rfl
  · simp at found

theorem dollar?_more_le (rest : List Char) (lexeme : Lexeme)
    (found : dollar? rest = some lexeme) : lexeme.more ≤ rest.length := by
  unfold dollar? at found
  split at found
  · exact enclosedPlaceholder?_more_le _ _ lexeme found
  · exact enclosedPlaceholder?_more_le _ _ lexeme found
  · split at found
    · exact tagged?_more_le rest lexeme found
    · obtain rfl := Option.some.inj found
      exact spanLength_le Text.isDecimal rest

theorem marked?_more_le (c : Char) (rest : List Char) (lexeme : Lexeme)
    (found : marked? c rest = some lexeme) : lexeme.more ≤ rest.length := by
  unfold marked? at found
  split at found
  · obtain rfl := Option.some.inj found
    exact spanLength_le Text.isBlank rest
  split at found
  · obtain rfl := Option.some.inj found
    exact spanLength_le _ rest
  split at found
  · rename_i opens
    obtain rfl := Option.some.inj found
    obtain ⟨body, rfl⟩ := List.head?_eq_some_iff.1 opens.2
    exact blockComment_more_le body
  rcases Option.or_eq_some_iff.1 found with quoted | ⟨-, other⟩
  · exact quoted?_more_le c rest lexeme quoted
  split at other
  · obtain rfl := Option.some.inj other
    exact bracketed_more_le rest
  split at other
  · exact dollar?_more_le rest lexeme other
  split at other
  · obtain rfl := Option.some.inj other
    exact Nat.zero_le _
  split at other
  · unfold bound? at other
    split at other
    · obtain rfl := Option.some.inj other
      exact spanLength_le Text.isWord rest
    · simp at other
  split at other
  · unfold specialName? at other
    split at other
    · simp at other
    · obtain rfl := Option.some.inj other
      exact spanLength_le isSpecialNamePart rest
  · obtain ⟨kind, -, rfl⟩ := Option.map_eq_some_iff.1 other
    exact Nat.zero_le _

theorem exponentLength_le (chars : List Char) : exponentLength chars ≤ chars.length := by
  cases chars with
  | nil => exact le_rfl
  | cons mark rest =>
    simp only [exponentLength]
    split
    · generalize sign : (if rest.head? = some '+' ∨ rest.head? = some '-' then 1 else 0) = width
      have there : width ≤ rest.length := by
        split at sign
        · cases rest with
          | nil => simp_all
          | cons first others => simp [← sign]
        · omega
      have bound := spanLength_le Text.isDecimal (rest.drop width)
      rw [List.length_drop] at bound
      split
      · exact Nat.zero_le _
      · simp only [List.length_cons]
        omega
    · exact Nat.zero_le _

theorem mantissaLength?_le (chars : List Char) (length : Nat)
    (found : mantissaLength? chars = some length) : length ≤ chars.length := by
  unfold mantissaLength? at found
  have whole := spanLength_le Text.isDecimal chars
  split at found
  · split at found
    · rename_i rest _
      have fraction := spanLength_le Text.isDecimal rest
      split at found
      · simp at found
      · obtain rfl := Option.some.inj found
        simp only [List.length_cons]
        omega
    · simp at found
  · split at found
    · rename_i rest point
      have fraction := spanLength_le Text.isDecimal rest
      have shorter := congrArg List.length point
      obtain rfl := Option.some.inj found
      simp only [List.length_drop, List.length_cons] at shorter
      omega
    · obtain rfl := Option.some.inj found
      exact whole

theorem numberLength?_le (chars : List Char) (length : Nat)
    (found : numberLength? chars = some length) : length ≤ chars.length := by
  obtain ⟨mantissa, step, rfl⟩ := Option.map_eq_some_iff.1 found
  have first := mantissaLength?_le chars mantissa step
  have second := exponentLength_le (chars.drop mantissa)
  rw [List.length_drop] at second
  omega

theorem phraseOnward_le (phrases : Phrases) (chars : List Char) (length : Nat) (phrase : String)
    (found : phraseOnward phrases chars = some (length, phrase)) : length ≤ chars.length := by
  fun_induction phraseOnward phrases chars generalizing length phrase with
  | case1 => simp at found
  | case2 => simp at found
  | case3 => simp at found
  | case4 phrases chars gap apart wordLength word child step taken further contents onward ih =>
    have bound := ih further contents onward
    have inside := wordLength?_le _ _ word
    have blanks := spanLength_le Text.isBlank chars
    simp only [Option.some.injEq, Prod.mk.injEq] at found
    simp only [List.length_drop] at bound inside
    omega
  | case5 phrases chars gap apart wordLength word child step taken onward ih =>
    obtain ⟨own, -, equal⟩ := Option.map_eq_some_iff.1 found
    have inside := wordLength?_le _ _ word
    have blanks := spanLength_le Text.isBlank chars
    simp only [Prod.mk.injEq] at equal
    simp only [List.length_drop] at inside
    omega

theorem wordLexeme_more_le (registry : Registry) (c : Char) (rest : List Char) (length : Nat)
    (found : wordLength? (c :: rest) = some length) :
    (wordLexeme registry c rest length).more ≤ rest.length := by
  have positive := wordLength?_pos _ _ found
  have inside := wordLength?_le _ _ found
  simp only [List.length_cons] at inside
  unfold wordLexeme
  simp only
  split
  · rename_i further contents phrase
    obtain ⟨node, -, onward⟩ := Option.bind_eq_some_iff.1 phrase
    have bound := phraseOnward_le node _ further contents onward
    simp only [List.length_drop, List.length_cons] at bound
    simp only
    omega
  · split <;> simp only <;> omega

theorem operatorLexeme_more_le (c : Char) (rest : List Char) :
    (operatorLexeme c rest).more ≤ rest.length := by
  unfold operatorLexeme
  split
  · rename_i operator found
    have here : operator.isPrefixOf (c :: rest) = true := by simpa using List.find?_some found
    have fits := (List.isPrefixOf_iff_prefix.1 here).length_le
    simp only [List.length_cons] at fits ⊢
    omega
  · exact Nat.zero_le _

/-- Every lexeme lies within the text: it takes no more characters than there are. -/
theorem scan?_more_le (registry : Registry) (last : Option Token) (c : Char) (rest : List Char)
    (lexeme : Lexeme) (found : scan? registry last c rest = some lexeme) :
    lexeme.more ≤ rest.length := by
  unfold scan? at found
  split at found
  · rename_i marked
    obtain rfl := Option.some.inj found
    exact marked?_more_le c rest _ marked
  split at found
  · obtain ⟨length, number, rfl⟩ := Option.map_eq_some_iff.1 found
    have bound := numberLength?_le (c :: rest) length number
    simp only [List.length_cons] at bound ⊢
    omega
  · obtain rfl := Option.some.inj found
    cases sign : signed? last c rest with
    | some lexeme =>
      unfold signed? at sign
      split at sign
      · obtain ⟨length, number, rfl⟩ := Option.map_eq_some_iff.1 sign
        exact numberLength?_le rest length number
      · simp at sign
    | none =>
      rw [Option.getD_none, wordOrOperator]
      split
      · rename_i length word
        exact wordLexeme_more_le registry c rest length word
      · exact operatorLexeme_more_le c rest

structure Cursor.Advances (cursor : Cursor) (token : Token) (after : Cursor) : Prop where
  filled : token.text ≠ ""
  start : token.start = cursor.position
  stop : after.position = token.stop
  ahead : cursor.rest = token.text.toList ++ after.rest

theorem Cursor.advances_of_read (registry : Registry) (cursor after : Cursor) (token : Token)
    (notices : List Notice) (step : cursor.read registry = .token token notices after) :
    cursor.Advances token after := by
  unfold read at step
  cases ahead : cursor.rest with
  | nil => simp [ahead] at step
  | cons c rest =>
    simp only [ahead] at step
    split at step
    · simp at step
    · rename_i lexeme scanned
      simp only [Reading.token.injEq] at step
      obtain ⟨rfl, -, rfl⟩ := step
      constructor
      · intro empty
        simpa using congrArg String.toList empty
      · rfl
      · rfl
      · simp [ahead]

/-- One step takes as many characters as its token has, so it never stands still. -/
theorem Cursor.Advances.position_lt {cursor after : Cursor} {token : Token}
    (step : cursor.Advances token after) :
    cursor.position < after.position ∧ after.rest.length < cursor.rest.length ∧
      after.position + after.rest.length = cursor.position + cursor.rest.length := by
  have positive : 0 < token.text.toList.length := by
    have filled := step.filled
    exact List.length_pos_iff.2 fun empty => filled (String.toList_eq_nil_iff.1 empty)
  have taken := congrArg List.length step.ahead
  rw [List.length_append] at taken
  rw [step.stop, Token.stop, step.start, ← String.length_toList]
  omega

def moved (place : Nat → Nat) (token : Token) : Token :=
  { token with start := place token.start }

def Tiles (position : Nat) (chars : List Char) : List Token → Prop
  | [] => chars = []
  | token :: others =>
    token.text ≠ "" ∧ token.start = position ∧
      ∃ after, chars = token.text.toList ++ after ∧ Tiles token.stop after others

/-- A run tiles exactly what it has passed. -/
theorem Cursor.readAll_tiles (registry : Registry) (cursor : Cursor) :
    ∃ passed, cursor.rest = passed ++ (cursor.readAll registry).stop.rest ∧
      (cursor.readAll registry).stop.position = cursor.position + passed.length ∧
      Tiles cursor.position passed (cursor.readAll registry).tokens := by
  cases step : cursor.read registry with
  | atEnd =>
    rw [readAll_of_atEnd registry cursor step]
    exact ⟨[], by simp, by simp, rfl⟩
  | stray =>
    rw [readAll_of_stray registry cursor step]
    exact ⟨[], by simp, by simp, rfl⟩
  | token token notices after =>
    have advance := advances_of_read registry cursor after token notices step
    have shorter := advance.position_lt.2.1
    obtain ⟨passed, ahead, position, tiles⟩ := readAll_tiles registry after
    rw [readAll_of_token registry cursor after token notices step]
    refine ⟨token.text.toList ++ passed, ?_, ?_, advance.filled, advance.start, passed, rfl, ?_⟩
    · rw [advance.ahead, List.append_assoc]
      exact congrArg _ ahead
    · have place := advance.stop
      simp only [Token.stop, advance.start] at place
      simp only [List.length_append, String.length_toList]
      omega
    · rw [← advance.stop]
      exact tiles
termination_by cursor.rest.length

namespace Tiles

theorem filled {position : Nat} {chars : List Char} {tokens : List Token}
    (tiles : Tiles position chars tokens) (token : Token) (member : token ∈ tokens) :
    token.text ≠ "" := by
  induction tokens generalizing position chars with
  | nil => simp at member
  | cons first others ih =>
    obtain ⟨full, -, after, -, rest⟩ := tiles
    rcases List.mem_cons.1 member with rfl | later
    · exact full
    · exact ih rest later

theorem joined {position : Nat} {chars : List Char} {tokens : List Token}
    (tiles : Tiles position chars tokens) : tokens.flatMap (·.text.toList) = chars := by
  induction tokens generalizing position chars with
  | nil => exact tiles.symm
  | cons first others ih =>
    obtain ⟨-, -, after, rfl, rest⟩ := tiles
    rw [List.flatMap_cons, ih rest]

theorem chain {position : Nat} {chars : List Char} {tokens : List Token}
    (tiles : Tiles position chars tokens) :
    tokens.IsChain fun before after => after.start = before.stop := by
  induction tokens generalizing position chars with
  | nil => exact List.IsChain.nil
  | cons first others ih =>
    obtain ⟨-, -, after, -, rest⟩ := tiles
    cases others with
    | nil => exact List.IsChain.singleton first
    | cons second others => exact List.isChain_cons_cons.2 ⟨rest.2.1, ih rest⟩

theorem last_stop {position : Nat} {chars : List Char} {tokens : List Token}
    (tiles : Tiles position chars tokens) (token : Token) (last : tokens.getLast? = some token) :
    token.stop = position + chars.length := by
  induction tokens generalizing position chars with
  | nil => simp at last
  | cons first others ih =>
    obtain ⟨-, rfl, after, rfl, rest⟩ := tiles
    cases others with
    | nil =>
      obtain rfl : first = token := by simpa using last
      have nothing : after = [] := rest
      simp [nothing, Token.stop, String.length_toList]
    | cons second others =>
      rw [List.getLast?_cons_cons] at last
      rw [ih rest last, Token.stop, List.length_append, String.length_toList, Nat.add_assoc]

theorem slice {position : Nat} {chars : List Char} {tokens : List Token}
    (tiles : Tiles position chars tokens) (before : List Char) (place : before.length = position)
    (token : Token) (member : token ∈ tokens) :
    token.text.toList = ((before ++ chars).drop token.start).take token.text.length := by
  induction tokens generalizing position chars before with
  | nil => simp at member
  | cons first others ih =>
    obtain ⟨-, rfl, after, rfl, rest⟩ := tiles
    rcases List.mem_cons.1 member with rfl | later
    · rw [← place, List.drop_left, ← String.length_toList, List.take_left]
    · have onward := ih rest (before ++ first.text.toList)
        (by simp [place, Token.stop, String.length_toList]) later
      rwa [List.append_assoc] at onward

end Tiles

structure Partitions (tokens : List Token) (source : String) : Prop where
  filled : ∀ token ∈ tokens, token.text ≠ ""
  first : ∀ token, tokens.head? = some token → token.start = 0
  adjacent : tokens.IsChain fun before after => after.start = before.stop
  last : ∀ token, tokens.getLast? = some token → token.stop = source.length
  slice : ∀ token ∈ tokens,
    token.text.toList = (source.toList.drop token.start).take (token.stop - token.start)
  joined : (Stream.mk tokens).text = source
  empty : tokens = [] ↔ source = ""

theorem Tiles.partitions {tokens : List Token} {source : String}
    (tiles : Tiles 0 source.toList tokens) : Partitions tokens source where
  filled := tiles.filled
  first := by
    intro token head
    obtain ⟨others, rfl⟩ := List.head?_eq_some_iff.1 head
    exact tiles.2.1
  adjacent := tiles.chain
  last := by
    intro token final
    rw [tiles.last_stop token final, Nat.zero_add, String.length_toList]
  slice := by
    intro token member
    have width : token.stop - token.start = token.text.length := by
      rw [Token.stop, Nat.add_sub_cancel_left]
    rw [width]
    exact tiles.slice [] rfl token member
  joined := by
    apply String.toList_injective
    rw [Stream.text, String.toList_join, List.flatMap_map]
    exact tiles.joined
  empty := by
    constructor
    · rintro rfl
      exact String.toList_eq_nil_iff.1 tiles
    · rintro rfl
      cases tokens with
      | nil => rfl
      | cons first others =>
        obtain ⟨full, -, after, nothing, -⟩ := tiles
        exact absurd (String.toList_eq_nil_iff.1 (List.append_eq_nil_iff.1 nothing.symm).1) full

theorem tokens?_eq_ok_iff (registry : Registry) (source : String) (tokens : List Token) :
    tokens? registry source = .ok tokens ↔
      (lex registry source).stop.rest = [] ∧ (lex registry source).tokens = tokens := by
  unfold tokens?
  by_cases complete : (lex registry source).stop.rest = []
  · simp [Cursor.Run.isComplete, complete]
  · simp [Cursor.Run.isComplete, complete]

theorem tiles_of_tokens? (registry : Registry) (source : String) (tokens : List Token)
    (lexed : tokens? registry source = .ok tokens) : Tiles 0 source.toList tokens := by
  obtain ⟨finished, rfl⟩ := (tokens?_eq_ok_iff registry source tokens).1 lexed
  obtain ⟨passed, ahead, -, tiles⟩ := (Cursor.ofSource source).readAll_tiles registry
  have whole : source.toList = passed := by
    rw [show (Cursor.readAll registry (Cursor.ofSource source)).stop.rest = [] from finished,
      List.append_nil] at ahead
    exact ahead
  rw [whole]
  exact tiles

/-- With any words and phrases, a text that can be read is the concatenation of its tokens, each
of which stands where it says; and reading goes forward with every token, by as many
characters as the token has, of which there are enough. -/
theorem tokens_partition (registry : Registry) (source : String) :
    (∀ tokens, tokens? registry source = .ok tokens → Partitions tokens source) ∧
    (∀ (cursor after : Cursor) (token : Token) (notices : List Notice),
      cursor.read registry = .token token notices after →
      cursor.position < after.position ∧ after.rest.length < cursor.rest.length ∧
        after.position + after.rest.length = cursor.position + cursor.rest.length) ∧
    (∀ (last : Option Token) (c : Char) (rest : List Char) (lexeme : Lexeme),
      scan? registry last c rest = some lexeme → lexeme.more ≤ rest.length) := by
  refine ⟨?_, ?_, ?_⟩
  · intro tokens lexed
    exact (tiles_of_tokens? _ source tokens lexed).partitions
  · intro cursor after token notices step
    exact (Cursor.advances_of_read _ cursor after token notices step).position_lt
  · intro last c rest lexeme found
    exact scan?_more_le _ last c rest lexeme found

theorem tokens_partition_open_quote :
    tokens? (Registry.common {}) "N'a''b' group\n by -1'c" = .ok
      [.plain .stringLiteral "N'a''b'" 0, .plain .blank " " 7,
        ⟨.reservedWord, "group\n by", 8, "GROUP BY"⟩, .plain .blank " " 17,
        .plain .numberLiteral "-1" 18, .plain .stringLiteral "'c" 20] ∧
    Partitions
      [.plain .stringLiteral "N'a''b'" 0, .plain .blank " " 7,
        ⟨.reservedWord, "group\n by", 8, "GROUP BY"⟩, .plain .blank " " 17,
        .plain .numberLiteral "-1" 18, .plain .stringLiteral "'c" 20]
      "N'a''b' group\n by -1'c" := by
  have lexed := (tokens?_eq_ok_iff (Registry.common {}) "N'a''b' group\n by -1'c"
    [.plain .stringLiteral "N'a''b'" 0, .plain .blank " " 7,
      ⟨.reservedWord, "group\n by", 8, "GROUP BY"⟩, .plain .blank " " 17,
      .plain .numberLiteral "-1" 18, .plain .stringLiteral "'c" 20]).2 (by decide +kernel)
  exact ⟨lexed, (tokens_partition (.common {}) "N'a''b' group\n by -1'c").1 _ lexed⟩

end SqlLayout.Token
