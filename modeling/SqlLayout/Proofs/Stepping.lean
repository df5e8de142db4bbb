import SqlLayout.Proofs.Respelling
import SqlLayout.Proofs.Severing

/-! Reading token by token. A text is read to its end unless reading comes to a stray digit: a
digit sign that is no decimal digit, or a point before one, where a token has to start. Inside
words, strings, comments and placeholders, and behind a sign, such a character is like any
other. What single calls give, with whatever they pass over, is what reading the text at once
gives from the place on where the cursor stands; the solid token that a cursor remembers is
always the one that reading at once would remember there. -/
namespace SqlLayout.Token

open Keyword Text

def isStraySign (c : Char) : Bool :=
  isDigitSign c && !isDecimal c

def strays : List Char → Bool
  | [] => false
  | c :: rest => isStraySign c || (c = '.' && rest.head?.any isStraySign)

theorem unmarked_of_startsNumber (c : Char) (rest : List Char)
    (starts : startsNumber c rest = true) : marked? c rest = none := by
  have first : isDigitSign c = true ∨ c = '.' := by
    simp only [startsNumber, Bool.or_eq_true, Bool.and_eq_true, decide_eq_true_eq] at starts
    exact starts.imp_right And.left
  have apart (sign : Char) (other : (isDigitSign sign || sign = '.') = false) : c ≠ sign := by
    rintro rfl
    simp only [Bool.or_eq_false_iff, decide_eq_false_iff_not] at other
    rcases first with digit | point
    · exact absurd digit (by simp [other.1])
    · exact other.2 point
  refine marked?_eq_none c rest ?_ (fun both => apart '-' (by decide) both.1)
    (fun both => apart '/' (by decide) both.1) ?_ ?_
  · rcases first with digit | rfl
    · exact isBlank_of_isDigitSign c digit
    · decide
  · cases found : quoted? c rest with
    | none => rfl
    | some lexeme =>
      have lead := lead_of_quoted? c rest lexeme found
      have none : ['\'', 'N', 'n', 'E', 'e', 'X', 'x', 'B', 'b', 'U', 'u', '"', '`'].all
          (fun sign => !(isDigitSign sign || sign = '.')) = true := by decide
      exact absurd rfl (apart c (by simpa using List.all_eq_true.1 none c lead))
  · have none : ['[', '$', '?', ':', '@', '#', '(', ')', ',', ';'].all
        (fun sign => !(isDigitSign sign || sign = '.')) = true := by decide
    by_contra inside
    rw [Bool.not_eq_false, List.contains_iff_mem] at inside
    exact absurd rfl (apart c (by simpa using List.all_eq_true.1 none c inside))

theorem spanLength_isDecimal_pos (chars : List Char) :
    0 < spanLength isDecimal chars ↔ chars.head?.any isDecimal = true := by
  cases chars with
  | nil => simp [spanLength]
  | cons c rest =>
    by_cases digit : isDecimal c = true
    · simp [spanLength, digit]
    · simp [spanLength, digit]

theorem numberLength?_isSome (chars : List Char) :
    (numberLength? chars).isSome = true ↔
      chars.head?.any isDecimal = true ∨
        chars.head? = some '.' ∧ chars.tail.head?.any isDecimal = true := by
  rw [numberLength?, Option.isSome_map, ← spanLength_isDecimal_pos, ← spanLength_isDecimal_pos]
  unfold mantissaLength?
  cases whole : spanLength isDecimal chars with
  | succ digits =>
    simp only [Nat.zero_lt_succ, true_or, iff_true]
    split <;> rfl
  | zero =>
    simp only [Nat.lt_irrefl, false_or]
    split
    · rename_i rest
      cases fraction : spanLength isDecimal rest with
      | zero => simp [fraction]
      | succ digits => simp [fraction]
    · rename_i other
      cases chars with
      | nil => simp
      | cons c rest =>
        have noPoint : c ≠ '.' := fun point => other rest (by rw [point])
        simp [noPoint]

theorem numberLength?_of_strays (chars : List Char) (stray : strays chars = true) :
    numberLength? chars = none := by
  have point : isDecimal '.' = false := by decide
  rw [← Option.not_isSome_iff_eq_none, numberLength?_isSome]
  cases chars with
  | nil => simp [strays] at stray
  | cons c rest =>
    cases rest with
    | nil => simp_all [strays, isStraySign]
    | cons next rest =>
      simp only [strays, isStraySign, List.head?_cons, Option.any_some, Bool.or_eq_true,
        Bool.and_eq_true, decide_eq_true_eq, Bool.not_eq_eq_eq_not, Bool.not_true] at stray
      simp only [List.head?_cons, List.tail_cons, Option.any_some, Option.some.injEq]
      have noPoint : isDigitSign '.' = false := by decide
      grind

theorem startsNumber_iff (c : Char) (rest : List Char) :
    startsNumber c rest = true ↔
      (numberLength? (c :: rest)).isSome = true ∨ strays (c :: rest) = true := by
  have decimal (d : Char) (digit : isDecimal d = true) := isDigitSign_of_isDecimal d digit
  rw [numberLength?_isSome]
  cases rest with
  | nil =>
    simp only [startsNumber, strays, isStraySign, List.head?_cons, List.head?_nil, List.tail_cons,
      Option.any_some, Option.any_none, Bool.and_false, Bool.or_false, Bool.and_eq_true,
      Bool.not_eq_eq_eq_not, Bool.not_true]
    grind
  | cons next rest =>
    simp only [startsNumber, strays, isStraySign, List.head?_cons, List.tail_cons, Option.any_some,
      Option.some.injEq, Bool.or_eq_true, Bool.and_eq_true, decide_eq_true_eq,
      Bool.not_eq_eq_eq_not, Bool.not_true]
    grind

/-- The scanner fails at stray digits and nowhere else, whatever stands before them. -/
theorem scan?_eq_none_iff (registry : Registry) (last : Option Token) (c : Char)
    (rest : List Char) : scan? registry last c rest = none ↔ strays (c :: rest) = true := by
  constructor
  · intro failed
    unfold scan? at failed
    split at failed
    · simp at failed
    split at failed
    · rename_i starts
      have none := Option.map_eq_none_iff.1 failed
      rcases (startsNumber_iff c rest).1 starts with number | stray
      · simp [none] at number
      · exact stray
    · simp at failed
  · intro stray
    have starts : startsNumber c rest = true := (startsNumber_iff c rest).2 (.inr stray)
    rw [scan?, unmarked_of_startsNumber c rest starts, if_pos starts,
      numberLength?_of_strays _ stray, Option.map_none]

namespace Cursor

theorem read_eq_stray_iff (registry : Registry) (cursor : Cursor) :
    cursor.read registry = .stray ↔ strays cursor.rest = true := by
  unfold read
  cases cursor.rest with
  | nil => simp [strays]
  | cons c rest =>
    rw [← scan?_eq_none_iff registry cursor.last c rest]
    simp only
    split
    · rename_i failed
      simp [failed]
    · rename_i lexeme found
      simp [found]

theorem stop_readAll (registry : Registry) (cursor : Cursor) :
    (cursor.readAll registry).stop.rest = [] ∨
      strays (cursor.readAll registry).stop.rest = true := by
  cases step : cursor.read registry with
  | atEnd =>
    rw [readAll_of_atEnd registry cursor step]
    exact .inl ((read_eq_atEnd_iff registry cursor).1 step)
  | stray =>
    rw [readAll_of_stray registry cursor step]
    exact .inr ((read_eq_stray_iff registry cursor).1 step)
  | token token notices after =>
    have shorter := rest_lt_of_read registry cursor after token notices step
    rw [readAll_of_token registry cursor after token notices step]
    exact stop_readAll registry after
termination_by cursor.rest.length

namespace Passes

variable {registry : Registry} {cursor stop : Cursor} {tokens : List Token}

theorem readAll_of_strays (passes : Passes registry cursor tokens stop)
    (stray : strays stop.rest = true) :
    (cursor.readAll registry).tokens = tokens ∧ (cursor.readAll registry).stop = stop := by
  induction passes with
  | done cursor =>
    rw [readAll_of_stray registry cursor ((read_eq_stray_iff registry cursor).2 stray)]
    exact ⟨rfl, rfl⟩
  | token step _ ih =>
    obtain ⟨tokens, ends⟩ := ih stray
    rw [readAll_of_token registry _ _ _ _ step, tokens, ends]
    exact ⟨rfl, rfl⟩

theorem position (passes : Passes registry cursor tokens stop) :
    stop.position = cursor.position + (tokens.flatMap (·.text.toList)).length := by
  induction passes with
  | done => rfl
  | token step _ ih =>
    have advance := advances_of_read registry _ _ _ _ step
    rw [ih, advance.stop, Token.stop, advance.start, List.flatMap_cons, List.length_append,
      String.length_toList, Nat.add_assoc]

theorem starts (passes : Passes registry cursor tokens stop) (token : Token)
    (member : token ∈ tokens) : cursor.position ≤ token.start ∧ token.start < stop.position := by
  induction passes with
  | done => simp at member
  | @token cursor next stop first notices others step onward ih =>
    have advance := advances_of_read registry _ _ _ _ step
    have forward := advance.position_lt.1
    have reached := onward.position
    rcases List.mem_cons.1 member with rfl | later
    · have start := advance.start
      omega
    · have inside := ih later
      omega

theorem position_last (passes : Passes registry cursor tokens stop) (token : Token)
    (last : tokens.getLast? = some token) : stop.position = token.stop := by
  obtain ⟨front, rfl⟩ := List.getLast?_eq_some_iff.1 last
  obtain ⟨between, -, final⟩ := passes.split
  cases final with
  | token step onward =>
    cases onward with
    | done => exact (advances_of_read registry _ _ _ _ step).stop

theorem append {others : List Token} {final : Cursor}
    (front : Passes registry cursor tokens stop) (back : Passes registry stop others final) :
    Passes registry cursor (tokens ++ others) final := by
  induction front with
  | done => exact back
  | token step _ ih => exact .token step (ih back)

end Passes

end Cursor

/-- Reading a text from its start comes to a place where the next token has to start. -/
def ComesTo (registry : Registry) (source : String) (place : Nat) : Prop :=
  ∃ tokens stop, Cursor.Passes registry (.ofSource source) tokens stop ∧ stop.position = place

theorem Cursor.Passes.split_source {registry : Registry} {source : String} {tokens : List Token}
    {stop : Cursor} (passes : Cursor.Passes registry (.ofSource source) tokens stop) :
    (Stream.mk tokens).text.toList = source.toList.take stop.position ∧
      source.toList.drop stop.position = stop.rest := by
  have ahead : source.toList = tokens.flatMap (·.text.toList) ++ stop.rest := passes.ahead
  have place : stop.position = (tokens.flatMap (·.text.toList)).length := by
    rw [passes.position]
    exact Nat.zero_add _
  rw [Stream.text, String.toList_join, List.flatMap_map, ahead, place, List.take_left,
    List.drop_left]
  exact ⟨rfl, rfl⟩

theorem ComesTo.stops {registry : Registry} {source : String} {place : Nat}
    (reached : ComesTo registry source place)
    (stray : strays (source.toList.drop place) = true) :
    tokens? registry source = .error (.strayDigit place) ∧
      (Stream.mk (lex registry source).tokens).text.toList = source.toList.take place ∧
      (lex registry source).stop.position = place := by
  obtain ⟨tokens, stop, passes, rfl⟩ := reached
  obtain ⟨behind, ahead⟩ := passes.split_source
  rw [ahead] at stray
  obtain ⟨passed, final⟩ := passes.readAll_of_strays stray
  have unfinished : (lex registry source).isComplete = false := by
    rw [Cursor.Run.isComplete, lex, final]
    cases left : stop.rest with
    | nil => simp [left, strays] at stray
    | cons c rest => rfl
  refine ⟨?_, ?_, ?_⟩
  · rw [tokens?]
    simp only [unfinished, Bool.false_eq_true, if_false]
    rw [lex, final]
  · rw [lex, passed]
    exact behind
  · rw [lex, final]

theorem comesTo_of_unfinished (registry : Registry) (source : String)
    (unfinished : (lex registry source).stop.rest ≠ []) :
    ∃ place, ComesTo registry source place ∧ strays (source.toList.drop place) = true := by
  have run := Cursor.Passes.of_readAll registry (.ofSource source)
  refine ⟨_, ⟨_, _, run, rfl⟩, ?_⟩
  rw [run.split_source.2]
  exact (Cursor.stop_readAll registry (.ofSource source)).resolve_left unfinished

theorem exists_straySign (chars : List Char) (stray : strays chars = true) :
    ∃ c ∈ chars, isStraySign c = true := by
  cases chars with
  | nil => simp [strays] at stray
  | cons c rest =>
    simp only [strays, Bool.or_eq_true, Bool.and_eq_true] at stray
    rcases stray with first | ⟨-, second⟩
    · exact ⟨c, by simp, first⟩
    · cases rest with
      | nil => simp at second
      | cons d rest => exact ⟨d, by simp, by simpa using second⟩

/-- A text cannot be read to its end just if reading comes to a stray digit as the start of a
token. That is then the fault; the tokens before it make up the text in front of it, and
reading is left there. A text without stray signs can always be read. -/
theorem tokens?_fails_at_strays (registry : Registry) (source : String) :
    ((∃ fault, tokens? registry source = .error fault) ↔
      ∃ place, ComesTo registry source place ∧ strays (source.toList.drop place) = true) ∧
    (∀ place, ComesTo registry source place → strays (source.toList.drop place) = true →
      tokens? registry source = .error (.strayDigit place) ∧
      (Stream.mk (lex registry source).tokens).text.toList = source.toList.take place ∧
      (lex registry source).stop.position = place) ∧
    ((∀ c ∈ source.toList, isStraySign c = false) →
      ∃ tokens, tokens? registry source = .ok tokens) := by
  have complete (finished : (lex registry source).stop.rest = []) :
      tokens? registry source = .ok (lex registry source).tokens :=
    (tokens?_eq_ok_iff registry source _).2 ⟨finished, rfl⟩
  refine ⟨⟨?_, ?_⟩, fun place reached stray => reached.stops stray, ?_⟩
  · rintro ⟨fault, failed⟩
    refine comesTo_of_unfinished registry source fun finished => ?_
    rw [complete finished] at failed
    cases failed
  · rintro ⟨place, reached, stray⟩
    exact ⟨_, (reached.stops stray).1⟩
  · intro clean
    refine ⟨_, complete ?_⟩
    by_contra unfinished
    obtain ⟨place, -, stray⟩ := comesTo_of_unfinished registry source unfinished
    obtain ⟨c, inside, sign⟩ := exists_straySign _ stray
    rw [clean c (List.mem_of_mem_drop inside)] at sign
    simp at sign

theorem tokens?_fails_at_strays_operator :
    tokens? (Registry.common {}) "a² '²' -²" = .error (.strayDigit 8) ∧
      (Stream.mk (lex (Registry.common {}) "a² '²' -²").tokens).text.toList =
        "a² '²' -".toList ∧
      (lex (Registry.common {}) "a² '²' -²").stop.position = 8 := by
  have reached : ComesTo (Registry.common {}) "a² '²' -²" 8 :=
    ⟨_, _, Cursor.Passes.of_readAll _ _, by decide +kernel⟩
  exact (tokens?_fails_at_strays _ _).2.1 8 reached (by decide +kernel)

def skips (skipBlank skipComment : Bool) (token : Token) : Bool :=
  (skipBlank && token.isBlank) || (skipComment && token.isComment)

namespace Cursor

inductive Call where
  | reset
  | next (skipBlank skipComment : Bool)

def after (registry : Registry) (source : String) (cursor : Cursor) : Call → Cursor
  | .reset => .ofSource source
  | .next skipBlank skipComment => (cursor.next registry skipBlank skipComment).stop

def afterAll (registry : Registry) (source : String) (calls : List Call) : Cursor :=
  calls.foldl (after registry source) (.ofSource source)

theorem next_of_atEnd (registry : Registry) (skipBlank skipComment : Bool) (cursor : Cursor)
    (finished : cursor.rest = []) :
    cursor.next registry skipBlank skipComment = ⟨.ok none, [], cursor⟩ := by
  have step := (read_eq_atEnd_iff registry cursor).2 finished
  rw [next]
  split <;> simp_all

theorem Passes.next {registry : Registry} {cursor final : Cursor} {tokens : List Token}
    (passes : Passes registry cursor tokens final) (finished : final.rest = [])
    (skipBlank skipComment : Bool) :
    (cursor.next registry skipBlank skipComment).found =
        .ok (tokens.find? (!skips skipBlank skipComment ·)) ∧
      ∃ front back, tokens = front ++ back ∧
        Passes registry cursor front (cursor.next registry skipBlank skipComment).stop ∧
        Passes registry (cursor.next registry skipBlank skipComment).stop back final ∧
        (tokens.find? (!skips skipBlank skipComment ·) = none → back = []) ∧
        ∀ token, tokens.find? (!skips skipBlank skipComment ·) = some token →
          front.getLast? = some token := by
  induction passes with
  | done cursor =>
    rw [next_of_atEnd registry skipBlank skipComment cursor finished]
    exact ⟨rfl, [], [], rfl, .done cursor, .done cursor, fun _ => rfl, by simp⟩
  | @token cursor after final token notices others step onward ih =>
    rw [next_of_token registry skipBlank skipComment cursor after token notices step,
      ← skips.eq_1]
    by_cases skipped : skips skipBlank skipComment token = true
    · obtain ⟨found, front, back, whole, before, behind, none, some⟩ := ih finished
      have same : (token :: others).find? (!skips skipBlank skipComment ·) =
          others.find? (!skips skipBlank skipComment ·) :=
        List.find?_cons_of_neg (by simp [skipped])
      rw [if_pos skipped, same]
      refine ⟨found, token :: front, back, by rw [whole]; rfl, .token step before, behind, none, ?_⟩
      intro other here
      have last := some other here
      cases front with
      | nil => simp at last
      | cons first rest => rwa [List.getLast?_cons_cons]
    · have here : (token :: others).find? (!skips skipBlank skipComment ·) = Option.some token :=
        List.find?_cons_of_pos (by simp [skipped])
      rw [if_neg skipped, here]
      refine ⟨rfl, [token], others, rfl, .token step (.done after), onward, by simp, ?_⟩
      intro other same
      simpa using same

def Along (registry : Registry) (source : String) (tokens : List Token) (cursor : Cursor) : Prop :=
  ∃ front back final, tokens = front ++ back ∧ Passes registry (.ofSource source) front cursor ∧
    Passes registry cursor back final ∧ final.rest = []

theorem along_ofSource {registry : Registry} {source : String} {tokens : List Token}
    (lexed : tokens? registry source = .ok tokens) :
    Along registry source tokens (.ofSource source) := by
  obtain ⟨finished, rfl⟩ := (tokens?_eq_ok_iff registry source tokens).1 lexed
  exact ⟨[], _, _, rfl, .done _, Passes.of_readAll registry _, finished⟩

/-- No call leads away from the tokens of the text. -/
theorem Along.after {registry : Registry} {source : String} {tokens : List Token}
    {cursor : Cursor} (lexed : tokens? registry source = .ok tokens)
    (along : Along registry source tokens cursor) (call : Call) :
    Along registry source tokens (cursor.after registry source call) := by
  cases call with
  | reset => exact along_ofSource lexed
  | next skipBlank skipComment =>
    obtain ⟨front, back, final, rfl, before, behind, finished⟩ := along
    obtain ⟨-, passed, left, rfl, onward, ahead, -⟩ := behind.next finished skipBlank skipComment
    exact ⟨front ++ passed, left, final, by simp, before.append onward, ahead, finished⟩

theorem along_afterAll {registry : Registry} {source : String} {tokens : List Token}
    (lexed : tokens? registry source = .ok tokens) (calls : List Call) :
    Along registry source tokens (afterAll registry source calls) := by
  have onward (calls : List Call) (cursor : Cursor)
      (along : Along registry source tokens cursor) :
      Along registry source tokens (calls.foldl (Cursor.after registry source) cursor) := by
    induction calls generalizing cursor with
    | nil => exact along
    | cons call others ih => exact ih _ (along.after lexed call)
  exact onward calls _ (along_ofSource lexed)

theorem Along.find? {registry : Registry} {source : String} {front back : List Token}
    {cursor final : Cursor} (before : Passes registry (.ofSource source) front cursor)
    (behind : Passes registry cursor back final) (wanted : Token → Bool) :
    (front ++ back).find? (fun token => decide (cursor.position ≤ token.start) && wanted token) =
      back.find? wanted := by
  have none : front.find? (fun token =>
      decide (cursor.position ≤ token.start) && wanted token) = none := by
    refine List.find?_eq_none.2 fun token member => ?_
    have start := (before.starts token member).2
    simp only [Bool.and_eq_true, decide_eq_true_eq, not_and_or]
    omega
  have all (token : Token) (member : token ∈ back) :
      (decide (cursor.position ≤ token.start) && wanted token) = wanted token := by
    have start := (behind.starts token member).1
    simp [start]
  rw [List.find?_append, none, Option.none_or]
  clear none behind
  induction back with
  | nil => rfl
  | cons token rest ih =>
    rw [List.find?_cons, List.find?_cons, all token (by simp),
      ih fun other member => all other (List.mem_cons_of_mem token member)]

theorem found_next {registry : Registry} {source : String} {tokens : List Token}
    (lexed : tokens? registry source = .ok tokens) (skipBlank skipComment : Bool)
    (calls : List Call) :
    ((afterAll registry source calls).next registry skipBlank skipComment).found =
      .ok (tokens.find? fun token =>
        decide ((afterAll registry source calls).position ≤ token.start) &&
          !skips skipBlank skipComment token) := by
  obtain ⟨front, back, final, rfl, before, behind, finished⟩ := along_afterAll lexed calls
  rw [Along.find? before behind]
  exact (behind.next finished skipBlank skipComment).1

end Cursor

/-- Reading in single calls, with resets between them, agrees with reading at once: whatever the
calls were, the reader stands at the start or behind a token, and the next call gives the
first token from there on that it does not pass over, or goes to the end if there is none.
Two readers at the same place give the same token, however they have come there. -/
theorem next_agrees (registry : Registry) (source : String) (tokens : List Token)
    (lexed : tokens? registry source = .ok tokens) (calls : List Cursor.Call)
    (skipBlank skipComment : Bool) :
    let cursor := Cursor.afterAll registry source calls
    let answer := cursor.next registry skipBlank skipComment
    let found := tokens.find? fun token =>
      decide (cursor.position ≤ token.start) && !skips skipBlank skipComment token
    (cursor.position = 0 ∨ ∃ token ∈ tokens, cursor.position = token.stop) ∧
    answer.found = .ok found ∧
    (found = none → answer.stop.rest = [] ∧ answer.stop.position = source.length) ∧
    (∀ token, found = some token → answer.stop.position = token.stop) ∧
    ∀ others : List Cursor.Call,
      (Cursor.afterAll registry source others).position = cursor.position →
      ((Cursor.afterAll registry source others).next registry skipBlank skipComment).found =
        answer.found := by
  have answers := Cursor.found_next lexed skipBlank skipComment
  intro cursor answer found
  obtain ⟨front, back, final, whole, before, behind, finished⟩ :=
    Cursor.along_afterAll lexed calls
  have same : found = back.find? (!skips skipBlank skipComment ·) := by
    simp only [found, whole]
    exact Cursor.Along.find? before behind _
  obtain ⟨-, passed, left, parts, onward, ahead, none, some⟩ :=
    behind.next finished skipBlank skipComment
  rw [← same] at none some
  refine ⟨?_, answers calls, ?_, ?_, ?_⟩
  · rcases List.eq_nil_or_concat front with rfl | ⟨others, token, rfl⟩
    · exact .inl before.position
    · rw [List.concat_eq_append] at before whole
      exact .inr ⟨token, by simp [whole], before.position_last token (by simp)⟩
  · intro missing
    obtain rfl := none missing
    cases ahead
    have text := (before.append onward).ahead
    rw [finished, List.append_nil] at text
    refine ⟨finished, ?_⟩
    rw [(before.append onward).position, ← text]
    exact (Nat.zero_add _).trans String.length_toList
  · intro token here
    exact onward.position_last token (some token here)
  · intro others place
    rw [answers others, place]
    exact (answers calls).symm

theorem next_agrees_sign :
    ((Cursor.afterAll (Registry.common {}) "a/*b*/-1"
        [.next false false, .reset, .next true true, .next false false]).next
        (Registry.common {}) true true).found =
      .ok (some (.plain .operator "-" 6)) := by
  have lexed : tokens? (Registry.common {}) "a/*b*/-1" = .ok
      [.plain .identifier "a" 0, .plain .comment "/*b*/" 1, .plain .operator "-" 6,
        .plain .numberLiteral "1" 7] :=
    (tokens?_eq_ok_iff _ _ _).2 (by decide +kernel)
  have place : (Cursor.afterAll (Registry.common {}) "a/*b*/-1"
      [.next false false, .reset, .next true true, .next false false]).position = 6 := by
    decide +kernel
  rw [(next_agrees _ _ _ lexed _ true true).2.1, place]
  rfl

end SqlLayout.Token
