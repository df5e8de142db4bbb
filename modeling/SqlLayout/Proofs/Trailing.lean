import SqlLayout.Proofs.Completeness
import SqlLayout.Proofs.Conservation
import SqlLayout.Proofs.Printing
import SqlLayout.Proofs.Respelling

/-! No line of a formatted text ends with a blank, unless the blank belongs to a comment, a string
or a quoted name, which are written as they are. Layout puts blanks in front of pieces only, so
all depends on the pieces. Numbers, signs and single words have no blanks in them. A phrase, which
is one word to the scanner, keeps the blanks of the source wherever it is not written as a
reserved word, also those in front of a line break; this is the one way to end a line
with a blank. -/
namespace SqlLayout

namespace Text

def isTrailing (c : Char) (after : List Char) : Bool :=
  isBlank c && after.head?.all (· = '\n')

def trails : List Char → Bool
  | [] => false
  | c :: rest => isTrailing c rest || trails rest

theorem isTrailing_of_append (c : Char) (after more : List Char)
    (trailing : isTrailing c (after ++ more) = true) : isTrailing c after = true := by
  cases after with
  | nil =>
    rw [isTrailing, Bool.and_eq_true] at trailing
    simp [isTrailing, trailing.1]
  | cons d rest => exact trailing

def Occupied (chars : List Char) : Prop :=
  ∃ c, chars.head? = some c ∧ c ≠ '\n'

theorem Occupied.isTrailing {chars : List Char} (occupied : Occupied chars) (c : Char) :
    Text.isTrailing c chars = false := by
  obtain ⟨d, head, other⟩ := occupied
  simp [Text.isTrailing, head, other]

theorem Occupied.append {chars : List Char} (occupied : Occupied chars) (more : List Char) :
    Occupied (chars ++ more) := by
  obtain ⟨c, head, other⟩ := occupied
  exact ⟨c, by simp [List.head?_append, head], other⟩

theorem trails_eq_false_iff (chars : List Char) :
    trails chars = false ↔
      ∀ before c after, chars = before ++ c :: after → isTrailing c after = false := by
  induction chars with
  | nil => simp [trails]
  | cons d rest ih =>
    rw [trails, Bool.or_eq_false_iff, ih]
    constructor
    · rintro ⟨here, later⟩ before c after whole
      cases before with
      | nil =>
        obtain ⟨rfl, rfl⟩ := List.cons.inj whole
        exact here
      | cons _ before => exact later before c after (List.cons.inj whole).2
    · intro all
      refine ⟨all [] d rest rfl, fun before c after whole => all (d :: before) c after ?_⟩
      rw [whole]
      rfl

theorem trails_append_of_visible (front back : List Char)
    (visible : ∀ c ∈ front, isBlank c = false) : trails (front ++ back) = trails back := by
  induction front with
  | nil => rfl
  | cons c rest ih =>
    rw [List.cons_append, trails, isTrailing, visible c (by simp), Bool.false_and, Bool.false_or,
      ih fun d member => visible d (by simp [member])]

theorem visible_of_mem_fieldChars (chars field : List Char) (member : field ∈ fieldChars chars)
    (c : Char) (inside : c ∈ field) : isBlank c = false := by
  have kept : c ∈ (fieldChars chars).flatten := List.mem_flatten.2 ⟨field, member, inside⟩
  rw [fieldChars_flatten, List.mem_filter] at kept
  simpa using kept.2

end Text

namespace Token

open Text

def isVerbatim (token : Token) : Bool :=
  token.kind = .comment || token.kind = .stringLiteral || token.kind = .quotedIdentifier

def Around (text : String) (before : List Char) (c : Char) (after : List Char) : Prop :=
  ∃ inside behind, text.toList = inside ++ c :: behind ∧ inside <:+ before ∧ behind <+: after

def Covered (tokens : List Token) (before : List Char) (c : Char) (after : List Char) : Prop :=
  ∃ token ∈ tokens, token.isVerbatim = true ∧ Around token.text before c after

/-- The place belongs to a phrase that has a blank in front of a line break, and is written with
its blanks. -/
def InPhrase (tokens : List Token) (before : List Char) (c : Char) (after : List Char) : Prop :=
  ∃ token ∈ tokens, token.kind = .reservedWord ∧ trails token.text.toList = true ∧
    ∃ choice : Style.WordCase, Around (choice.apply token.text) before c after

def Brought (tokens : List Token) (before : List Char) (c : Char) (after : List Char) : Prop :=
  Covered tokens before c after ∨ InPhrase tokens before c after

theorem Around.widen {text : String} {before after : List Char} {c : Char}
    (around : Around text before c after) (front back : List Char) :
    Around text (front ++ before) c (after ++ back) := by
  obtain ⟨inside, behind, whole, left, right⟩ := around
  exact ⟨inside, behind, whole, left.trans (List.suffix_append front before),
    right.trans (List.prefix_append after back)⟩

theorem around_self (text : String) (before after : List Char) (c : Char)
    (whole : text.toList = before ++ c :: after) : Around text before c after :=
  ⟨before, after, whole, List.suffix_refl before, List.prefix_refl after⟩

theorem Brought.widen {tokens : List Token} {before after : List Char} {c : Char}
    (brought : Brought tokens before c after) (front back : List Char) :
    Brought tokens (front ++ before) c (after ++ back) := by
  rcases brought with ⟨token, member, verbatim, around⟩ |
    ⟨token, member, reserved, blank, choice, around⟩
  · exact .inl ⟨token, member, verbatim, around.widen front back⟩
  · exact .inr ⟨token, member, reserved, blank, choice, around.widen front back⟩

/-- Lines end with blanks only where tokens bring them. -/
def Neat (tokens : List Token) (chars : List Char) : Prop :=
  ∀ before c after, chars = before ++ c :: after → isTrailing c after = true →
    Brought tokens before c after

/-- Such a text, with no blank in front. -/
structure Flush (tokens : List Token) (chars : List Char) : Prop where
  start : ∀ c, chars.head? = some c → Text.isBlank c = false
  neat : Neat tokens chars

namespace Neat

variable {tokens : List Token} {first second chars : List Char}

theorem of_trails (flush : Text.trails chars = false) : Neat tokens chars := by
  intro before c after whole trailing
  rw [(trails_eq_false_iff chars).1 flush before c after whole] at trailing
  simp at trailing

theorem of_visible (visible : ∀ c ∈ chars, Text.isBlank c = false) : Neat tokens chars := by
  refine of_trails ?_
  have all := trails_append_of_visible chars [] visible
  rwa [List.append_nil] at all

theorem trails (neat : Neat [] chars) : Text.trails chars = false := by
  refine (trails_eq_false_iff chars).2 fun before c after whole => ?_
  by_contra trailing
  rcases neat before c after whole (by simpa using trailing) with ⟨_, member, -⟩ | ⟨_, member, -⟩
  · simp at member
  · simp at member

theorem of_verbatim (token : Token) (member : token ∈ tokens)
    (verbatim : token.isVerbatim = true) : Neat tokens token.text.toList :=
  fun before c after whole _ =>
    .inl ⟨token, member, verbatim, around_self token.text before after c whole⟩

theorem of_phrase (token : Token) (member : token ∈ tokens)
    (reserved : token.kind = .reservedWord) (blank : Text.trails token.text.toList = true)
    (choice : Style.WordCase) : Neat tokens (choice.apply token.text).toList :=
  fun before c after whole _ =>
    .inr ⟨token, member, reserved, blank, choice, around_self _ before after c whole⟩

theorem append (left : Neat tokens first) (right : Neat tokens second) :
    Neat tokens (first ++ second) := by
  intro before c after whole trailing
  rcases List.append_eq_append_iff.1 whole with ⟨inner, rfl, rest⟩ | ⟨inner, rfl, rest⟩
  · have brought := right inner c after rest trailing
    simpa using brought.widen first []
  · cases inner with
    | nil =>
      have brought := right [] c after rest.symm trailing
      simpa using brought.widen before []
    | cons d inner =>
      obtain ⟨rfl, rfl⟩ := List.cons.inj rest
      have brought := left before c inner rfl (isTrailing_of_append c inner second trailing)
      exact brought.widen [] second

theorem cons (neat : Neat tokens chars) (c : Char) (goesOn : Occupied chars) :
    Neat tokens (c :: chars) := by
  intro before d after whole trailing
  cases before with
  | nil =>
    obtain ⟨rfl, rfl⟩ := List.cons.inj whole
    rw [goesOn.isTrailing c] at trailing
    simp at trailing
  | cons e before =>
    obtain ⟨rfl, rest⟩ := List.cons.inj whole
    have brought := neat before d after rest trailing
    simpa using brought.widen [c] []

theorem spaces (neat : Neat tokens chars) (goesOn : Occupied chars) (count : Nat) :
    Neat tokens (List.replicate count ' ' ++ chars) ∧
      Occupied (List.replicate count ' ' ++ chars) := by
  induction count with
  | zero => exact ⟨neat, goesOn⟩
  | succ count ih => exact ⟨ih.1.cons ' ' ih.2, ' ', rfl, by decide⟩

end Neat

namespace Flush

variable {tokens : List Token} {chars : List Char}

theorem occupied (flush : Flush tokens chars) (filled : chars ≠ []) : Occupied chars := by
  obtain ⟨c, rest, rfl⟩ := List.exists_cons_of_ne_nil filled
  refine ⟨c, rfl, ?_⟩
  rintro rfl
  exact absurd (flush.start '\n' rfl) (by decide)

theorem of_visible (visible : ∀ c ∈ chars, Text.isBlank c = false) : Flush tokens chars where
  start := fun c head => visible c (List.mem_of_head? head)
  neat := .of_visible visible

theorem weaken (flush : Flush [] chars) : Flush tokens chars :=
  ⟨flush.start, .of_trails flush.neat.trails⟩

theorem intercalate (pieces : List (List Char)) (flush : ∀ piece ∈ pieces, Flush tokens piece)
    (filled : ∀ piece ∈ pieces, piece ≠ []) : Flush tokens ([' '].intercalate pieces) := by
  induction pieces with
  | nil => exact of_visible (by simp)
  | cons piece rest ih =>
    have here := flush piece (by simp)
    cases rest with
    | nil => simpa using here
    | cons next others =>
      have onward := ih (fun other member => flush other (by simp [member]))
        fun other member => filled other (by simp [member])
      have goesOn : [' '].intercalate (next :: others) ≠ [] := by
        intro nothing
        exact filled next (by simp) (by cases others <;> simp_all)
      rw [List.intercalate_cons_cons, List.append_assoc]
      refine ⟨fun c head => here.start c ?_, here.neat.append
        (onward.neat.cons ' ' (onward.occupied goesOn))⟩
      obtain ⟨first, tail, rfl⟩ := List.exists_cons_of_ne_nil (filled piece (by simp))
      exact head

theorem collapse (text : String) : Flush tokens (Text.collapse text).toList := by
  rw [collapse_toList]
  exact intercalate _
    (fun field member => of_visible (visible_of_mem_fieldChars text.toList field member))
    fun field member => ne_nil_of_mem_fieldChars text.toList field member

end Flush

end Token

namespace Style.WordCase

open Text

theorem apply_keeps_blanks (choice : WordCase) (text : String) :
    (∀ c, (choice.apply text).toList.head? = some c → isBlank c = true →
        text.toList.head? = some c) ∧
      (trails text.toList = false → trails (choice.apply text).toList = false) := by
  -- That only an empty text becomes an empty one is there for the ends of texts.
  obtain ⟨-, heads, ends⟩ := choice.apply_induction
    (fun source shown => (shown = [] → source = []) ∧
      (∀ c, shown.head? = some c → isBlank c = true → source.head? = some c) ∧
      (trails source = false → trails shown = false))
    (by simp)
    (by
      rintro c images rest others full stays ⟨empty, heads, ends⟩
      refine ⟨by simp [full], ?_, ?_⟩
      · intro d head blank
        rcases stays with rfl | letters
        · exact head
        · obtain ⟨image, tail, rfl⟩ := List.exists_cons_of_ne_nil full
          obtain rfl : image = d := by simpa using head
          rw [isBlank_of_isLetterCode image (letters image (by simp))] at blank
          simp at blank
      · intro whole
        rw [trails, Bool.or_eq_false_iff] at whole
        rcases stays with rfl | letters
        · rw [List.singleton_append, trails, ends whole.2, Bool.or_false]
          cases others with
          | nil => rw [← whole.1, empty rfl]
          | cons d tail =>
            by_cases line : d = '\n'
            · obtain ⟨more, rfl⟩ := List.head?_eq_some_iff.1
                (heads d rfl (by rw [line]; decide))
              exact whole.1
            · exact Occupied.isTrailing ⟨d, rfl, line⟩ c
        · rw [trails_append_of_visible images others fun image member =>
            isBlank_of_isLetterCode image (letters image member)]
          exact ends whole.2)
    text
  exact ⟨heads, ends⟩

theorem start_apply (choice : WordCase) (text : String)
    (start : ∀ c, text.toList.head? = some c → isBlank c = false) (c : Char)
    (head : (choice.apply text).toList.head? = some c) : isBlank c = false := by
  by_contra blank
  rw [Bool.not_eq_false] at blank
  rw [start c ((choice.apply_keeps_blanks text).1 c head blank)] at blank
  simp at blank

theorem flush_apply (choice : WordCase) (text : String) (flush : Token.Flush [] text.toList) :
    Token.Flush [] (choice.apply text).toList :=
  ⟨choice.start_apply text flush.start,
    .of_trails ((choice.apply_keeps_blanks text).2 flush.neat.trails)⟩

end Style.WordCase

namespace Token

open Keyword Layout Text

theorem visible_of_span (belongs : Char → Bool)
    (parts : ∀ c, belongs c = true → isSpecialNamePart c = true) (rest : List Char) :
    ∀ c ∈ rest.take (spanLength belongs rest), Text.isBlank c = false := by
  intro c member
  have part := parts c (belongs_of_mem_span belongs rest c member)
  simp only [isSpecialNamePart, Bool.or_eq_true, decide_eq_true_eq] at part
  rcases part with part | rfl
  · exact isBlank_of_isNamePart c part
  · decide

theorem visible_of_numberLength? (chars : List Char) (length : Nat)
    (found : numberLength? chars = some length) :
    ∀ c ∈ chars.take length, Text.isBlank c = false := by
  have digit (c : Char) (decimal : isDecimal c = true) : Text.isBlank c = false :=
    isBlank_of_isDigitSign c (isDigitSign_of_isDecimal c decimal)
  intro c member
  obtain ⟨mantissa, step, rfl⟩ := Option.map_eq_some_iff.1 found
  rw [List.take_add] at member
  rcases List.mem_append.1 member with front | back
  · have numeral := mantissa_numeral chars mantissa step c front
    simp only [isNumeral, Bool.or_eq_true, decide_eq_true_eq] at numeral
    rcases numeral with decimal | rfl
    · exact digit c decimal
    · decide
  · have exponent := isExponent_take (chars.drop mantissa)
    generalize (chars.drop mantissa).take (exponentLength (chars.drop mantissa)) = run
      at exponent back
    cases exponent with
    | none => simp at back
    | digits isMark all =>
      rcases List.mem_cons.1 back with rfl | later
      · rcases isMark with rfl | rfl <;> decide
      · exact digit c (all c later)
    | signed isMark isSign all =>
      rcases List.mem_cons.1 back with rfl | later
      · rcases isMark with rfl | rfl <;> decide
      rcases List.mem_cons.1 later with rfl | last
      · rcases isSign with rfl | rfl <;> decide
      · exact digit c (all c last)

theorem visible_of_enclosed (opening close : Char) (body : List Char) (lexeme : Lexeme)
    (found : enclosedPlaceholder? close body = some lexeme)
    (signs : Text.isBlank opening = false ∧ Text.isBlank close = false) :
    ∀ c ∈ (opening :: body).take lexeme.more, Text.isBlank c = false := by
  unfold enclosedPlaceholder? at found
  simp only at found
  split at found
  · rename_i fits
    obtain rfl := Option.some.inj found
    obtain ⟨name, tail, rfl, -, length⟩ := exists_closed close body fits.1
    rw [length, List.take_left] at fits
    have text : (opening :: (name ++ close :: tail)).take (name.length + 2) =
        opening :: (name ++ [close]) := by
      rw [List.take_succ_cons, List.take_append, List.take_of_length_le (by omega)]
      simp
    intro c member
    rw [length, text] at member
    simp only [List.mem_cons, List.mem_append, List.not_mem_nil, or_false] at member
    rcases member with rfl | inName | rfl
    · exact signs.1
    · simp only [Bool.not_eq_true', List.any_eq_false] at fits
      simpa using fits.2 c inName
    · exact signs.2
  · simp at found

theorem visible_of_dollar? (rest : List Char) (lexeme : Lexeme)
    (found : dollar? rest = some lexeme) (kind : lexeme.kind = .placeholder) :
    ∀ c ∈ rest.take lexeme.more, Text.isBlank c = false := by
  unfold dollar? at found
  split at found
  · exact visible_of_enclosed '[' ']' _ lexeme found (by decide)
  · exact visible_of_enclosed '{' '}' _ lexeme found (by decide)
  · split at found
    · simp [kind_of_tagged? rest lexeme found] at kind
    · obtain rfl := Option.some.inj found
      intro c member
      exact isBlank_of_isDigitSign c
        (isDigitSign_of_isDecimal c (belongs_of_mem_span isDecimal rest c member))

theorem ReadFrom.visible {registry : Registry} {token : Token} {behind : List Char}
    (read : ReadFrom registry token behind) (solid : token.kind ≠ .blank)
    (free : token.kind ≠ .reservedWord) (other : token.isVerbatim = false) :
    ∀ c ∈ token.text.toList, Text.isBlank c = false := by
  obtain ⟨c, rest, lexeme, scans, kind, whole, -, -⟩ := read
  simp only [isVerbatim, Bool.or_eq_false_iff, decide_eq_false_iff_not] at other
  rw [kind] at solid free other
  rw [whole, List.forall_mem_cons]
  cases scans with
  | blank => exact absurd rfl solid
  | line => exact absurd rfl other.1.1
  | block _ _ isComment => exact absurd isComment other.1.1
  | quoted _ _ isQuoted => exact (isQuoted.elim other.1.2 other.2).elim
  | bracket first isBracket =>
    rw [more_of_bracketed rest (isBracket.resolve_left other.2), first]
    exact ⟨by decide, by simp⟩
  | dollar first lexeme found isDollar =>
    rw [first]
    exact ⟨by decide, visible_of_dollar? rest lexeme found (isDollar.resolve_right other.1.2)⟩
  | question first =>
    rw [first]
    exact ⟨by decide, by simp⟩
  | bound first _ =>
    rw [first]
    exact ⟨by decide, visible_of_span isWord
      (fun c part => by simp [isSpecialNamePart, isNamePart, part]) rest⟩
  | special first _ =>
    refine ⟨?_, visible_of_span isSpecialNamePart (fun _ part => part) rest⟩
    rcases first with rfl | rfl <;> decide
  | punctuation mark first =>
    refine ⟨?_, by simp⟩
    rcases first with same | same | same | same <;> rw [same.1] <;> decide
  | number unmarked length found =>
    have all := visible_of_numberLength? (c :: rest) length found
    have positive := Clear.numberLength?_pos (c :: rest) length found
    rwa [show length = length - 1 + 1 by omega, List.take_succ_cons, List.forall_mem_cons] at all
  | signed unmarked _ length found =>
    exact ⟨isBlank_of_unmarked c rest unmarked, visible_of_numberLength? rest length found⟩
  | word unmarked first given =>
    refine ⟨isBlank_of_unmarked c rest unmarked, ?_⟩
    have single : (wordLexeme registry c rest (1 + spanLength isNamePart rest)).more =
        spanLength isNamePart rest := by
      unfold wordLexeme at free ⊢
      grind
    rw [single]
    exact visible_of_span isNamePart (fun c part => by simp [isSpecialNamePart, part]) rest
  | operator unmarked _ _ =>
    refine ⟨isBlank_of_unmarked c rest unmarked, ?_⟩
    rcases operatorLexeme_cases c rest with long | short
    · have signs : longOperators.all (·.all (!Text.isBlank ·)) = true := by decide
      have here := List.all_eq_true.1 signs _ long
      rw [List.all_cons, Bool.and_eq_true] at here
      exact fun d member => by simpa using List.all_eq_true.1 here.2 d member
    · simp [short]

theorem ReadFrom.flush_word {registry : Registry} {token : Token} {behind : List Char}
    {tokens : List Token} (read : ReadFrom registry token behind) (member : token ∈ tokens)
    (wordLike : token.kind.isWordLike = true) (choice : Style.WordCase) :
    Flush tokens (choice.apply token.text).toList := by
  have solid : token.kind ≠ .blank := by
    intro kind
    simp [kind, Kind.isWordLike] at wordLike
  have start := read.start_visible solid
  cases blank : trails token.text.toList with
  | false => exact (choice.flush_apply token.text ⟨start, .of_trails blank⟩).weaken
  | true =>
    have reserved : token.kind = .reservedWord := by
      by_contra free
      have other : token.isVerbatim = false := by
        cases kind : token.kind <;> simp [isVerbatim, kind, Kind.isWordLike] at wordLike ⊢
      have none : Neat [] token.text.toList := .of_visible (read.visible solid free other)
      rw [none.trails] at blank
      simp at blank
    exact ⟨choice.start_apply token.text start, .of_phrase token member reserved blank choice⟩

theorem ReadFrom.flush_spelling {registry : Registry} {token : Token} {behind : List Char}
    {tokens : List Token} (read : ReadFrom registry token behind) (member : token ∈ tokens)
    (solid : token.kind ≠ .blank) (spells : registry.compounds.spells [] = true) (text : String)
    (spelling : Spelling token text) : Flush tokens text.toList := by
  unfold Spelling at spelling
  split at spelling
  · rename_i wordLike
    have collapsed : Flush [] (Text.collapse token.text).toList := .collapse token.text
    obtain ⟨choice, rfl | rfl | rfl⟩ := spelling
    · exact read.flush_word member wordLike choice
    · exact (choice.flush_apply _ collapsed).weaken
    · rcases (read.wordRead wordLike).called spells with same | called
      · rw [same]
        exact read.flush_word member wordLike choice
      · rw [called]
        exact (choice.flush_apply _ (Style.WordCase.upper.flush_apply _ collapsed)).weaken
  · rename_i plain
    rw [spelling]
    refine ⟨read.start_visible solid, ?_⟩
    cases verbatim : token.isVerbatim with
    | true => exact .of_verbatim token member verbatim
    | false =>
      refine .of_visible (read.visible solid ?_ verbatim)
      intro kind
      simp [kind, Kind.isWordLike] at plain

end Token

namespace Layout

open SqlLayout.Tree Token

theorem neat_nameComment {tokens : List Token} {name : String}
    (flush : Flush tokens name.toList) : Neat tokens ("/* " ++ name ++ " */").toList := by
  have signs (first second : Char)
      (visible : Text.isBlank first = false ∧ Text.isBlank second = false) :
      Neat tokens [first, second] :=
    .of_visible (by simpa using visible)
  have closing : Neat tokens [' ', '*', '/'] :=
    (signs '*' '/' (by decide)).cons ' ' ⟨'*', rfl, by decide⟩
  have goesOn : Text.Occupied (name.toList ++ [' ', '*', '/']) := by
    by_cases empty : name.toList = []
    · rw [empty]
      exact ⟨' ', rfl, by decide⟩
    · exact (flush.occupied empty).append _
  have whole := (signs '/' '*' (by decide)).append ((flush.neat.append closing).cons ' ' goesOn)
  simpa using whole

theorem neat_piece {tokens : List Token} (piece : Piece) (neat : Neat tokens piece.text.toList)
    (occupied : Text.Occupied piece.text.toList) :
    Neat tokens piece.chars ∧ (piece.lineBreak = false → Text.Occupied piece.chars) := by
  obtain ⟨spaced, goesOn⟩ := neat.spaces occupied piece.spaces
  unfold Piece.chars Piece.separator
  split
  · rename_i breaks
    exact ⟨spaced.cons '\n' goesOn, by simp [breaks]⟩
  · exact ⟨spaced, fun _ => goesOn⟩

theorem neat_entries {tokens : List Token} (entries : List Entry)
    (neat : ∀ entry ∈ entries, Neat tokens entry.chars) :
    Neat tokens (entries.flatMap Entry.chars) := by
  induction entries with
  | nil => exact .of_visible (by simp)
  | cons first rest ih =>
    rw [List.flatMap_cons]
    exact (neat first (by simp)).append (ih fun entry member => neat entry (by simp [member]))

end Layout

namespace Formatter

open SqlLayout.Tree Keyword Layout Token

namespace Reads

variable {formatter : Formatter} {source : String} {tokens statement : List Token}

theorem flush_spelling (reads : Reads formatter source tokens statement)
    (token : Token) (inside : token ∈ statement.filter (!·.isBlank)) (text : String)
    (spelling : Spelling token text) : Flush tokens text.toList := by
  obtain ⟨held, solid⟩ := List.mem_filter.1 inside
  obtain ⟨behind, read⟩ := reads.readFrom token held
  exact read.flush_spelling (mem_of_mem_splitStatements tokens statement reads.member token held)
    (by simpa [Token.isBlank] using solid) (Registry.spells_of_common reads.phrases) text spelling

theorem flush_mark (reads : Reads formatter source tokens statement)
    (mark : Mark) (drawn : mark ∈ (formatter.tree statement).trace.marks ++
      (terminator statement).toList.map .ofToken) (text : String) (writes : Writes mark text) :
    Flush tokens text.toList := by
  have comma : Flush tokens ",".toList :=
    .of_visible (List.forall_mem_singleton.2 (by decide))
  have counted := countedTokens_append tokens statement reads.member
  rcases writes with spelling | ⟨-, rfl⟩
  · have cases : mark = commaMark ∨
        ∃ token ∈ statement.filter (!·.isBlank), mark = .ofToken token := by
      rcases List.mem_append.1 drawn with shown | last
      · refine (reads.mark_cases mark shown).imp_right ?_
        rintro ⟨token, counts, rfl⟩
        exact ⟨token, counted ▸ List.mem_append_left _ counts, rfl⟩
      · obtain ⟨token, ends, rfl⟩ := List.mem_map.1 last
        exact .inr ⟨token, counted ▸ List.mem_append_right _ ends, rfl⟩
    rcases cases with rfl | ⟨token, inside, rfl⟩
    · obtain rfl : text = "," := spelling
      exact comma
    · exact reads.flush_spelling token inside text spelling
  · exact comma

theorem flush_name (reads : Reads formatter source tokens statement)
    (item : List Element) (inside : collectRun item ⊆ (formatter.tree statement).collect) :
    Flush tokens (plainText item).toList := by
  have held (token : Token) (member : token ∈ (item.flatMap Element.tokens).filter (!·.isComment)) :
      token ∈ statement.filter (!·.isBlank) := by
    obtain ⟨element, inItem, shown⟩ := List.mem_flatMap.1 (List.mem_filter.1 member).1
    have collected : token ∈ collectRun [element] := by
      rw [collectRun_cons]
      exact List.mem_append_left _ (mem_of_mem_inTextOrder _ token shown)
    have counts := (mem_walk _ statement token).1
      (inside (collectRun_subset [element] item (by simpa using inItem) collected))
    rw [← countedTokens_append tokens statement reads.member]
    exact List.mem_append_left _ counts
  rw [plainText, String.toList_intercalate, List.map_map]
  refine Flush.intercalate _ ?_ ?_
  · intro piece member
    obtain ⟨token, shown, rfl⟩ := List.mem_map.1 member
    exact reads.flush_spelling token (held token shown) token.text (spelling_text token)
  · intro piece member
    obtain ⟨token, shown, rfl⟩ := List.mem_map.1 member
    have filled := reads.text_ne_empty token (List.mem_filter.1 (held token shown)).1
    exact fun nothing => filled (String.toList_eq_nil_iff.1 nothing)

theorem neat_genuine (reads : Reads formatter source tokens statement)
    (sheet : Sheet) (entry : Entry)
    (genuine : entry.Genuine sheet (formatter.tree statement).collect)
    (drawn : ∀ mark, entry.origin = some mark → mark ∈ (formatter.tree statement).trace.marks ++
      (terminator statement).toList.map .ofToken) :
    Neat tokens entry.piece.text.toList ∧ Text.Occupied entry.piece.text.toList := by
  cases origin : entry.origin with
  | none =>
    obtain ⟨name, ⟨-, item, rfl, inside⟩, text⟩ := genuine.name origin
    rw [text]
    exact ⟨neat_nameComment (reads.flush_name item inside), '/', by simp, by decide⟩
  | some mark =>
    have flush := reads.flush_mark mark (drawn mark origin) _ (genuine.mark mark origin)
    exact ⟨flush.neat, flush.occupied fun nothing =>
      genuine.filled (String.toList_eq_nil_iff.1 nothing)⟩

theorem neat_text (reads : Reads formatter source tokens statement)
    (lineStarts : List Nat) (filled : formatter.formatStatement lineStarts statement ≠ "") :
    Neat tokens (formatter.formatStatement lineStarts statement).toList ∧
      Text.Occupied (formatter.formatStatement lineStarts statement).toList := by
  have full : ¬(statement.all fun token => token.isBlank || token.kind = .semicolon) = true :=
    fun nothing => filled (if_pos nothing)
  have whole : formatter.formatStatement lineStarts statement =
      Sheet.render ⟨formatter.style, formatter.registry, formatter.width, lineStarts⟩
        (formatter.tree statement) (terminator statement) := if_neg full
  obtain ⟨entries, text, genuine, start, -, records⟩ :=
    Sheet.printed_render ⟨formatter.style, formatter.registry, formatter.width, lineStarts⟩
      (formatter.tree statement) (terminator statement)
      fun token found => (kind_of_terminator statement token found).1
  have pieces (entry : Entry) (member : entry ∈ entries) : Neat tokens entry.chars ∧
      (entry.piece.lineBreak = false → Text.Occupied entry.chars) := by
    obtain ⟨neat, occupied⟩ := reads.neat_genuine _ entry (genuine entry member) fun mark origin =>
      records.order.mem (List.mem_filterMap.2 ⟨entry, member, origin⟩)
    exact neat_piece entry.piece neat occupied
  rw [whole, text]
  refine ⟨neat_entries entries fun entry member => (pieces entry member).1, ?_⟩
  cases entries with
  | nil => exact absurd (whole.trans (String.toList_eq_nil_iff.1 text)) filled
  | cons first rest =>
    rw [List.flatMap_cons]
    exact ((pieces first (by simp)).2 (start first rfl)).append _

end Reads

def texts (formatter : Formatter) (tokens : List Token) : List String :=
  ((splitStatements tokens).map
    (formatter.formatStatement (commentLineStarts none tokens))).filter (· ≠ "")

theorem formatTokens_eq (formatter : Formatter) (tokens : List Token) :
    formatter.formatTokens tokens = "\n\n".intercalate (formatter.texts tokens) :=
  rfl

def AtEmptyLine (texts : List String) (before : List Char) (c : Char) (after : List Char) : Prop :=
  ∃ first second, first ≠ [] ∧ second ≠ [] ∧ texts = first ++ second ∧
    before = ("\n\n".intercalate first).toList ∧
    c :: after = '\n' :: '\n' :: ("\n\n".intercalate second).toList

theorem toList_intercalate_cons (text : String) (rest : List String) (some : rest ≠ []) :
    ("\n\n".intercalate (text :: rest)).toList =
      text.toList ++ '\n' :: '\n' :: ("\n\n".intercalate rest).toList := by
  obtain ⟨next, others, rfl⟩ := List.exists_cons_of_ne_nil some
  simp [String.toList_intercalate]

theorem occupied_intercalate (texts : List String) (some : texts ≠ [])
    (occupied : ∀ text ∈ texts, Text.Occupied text.toList) :
    Text.Occupied ("\n\n".intercalate texts).toList := by
  obtain ⟨text, rest, rfl⟩ := List.exists_cons_of_ne_nil some
  have here := occupied text (by simp)
  by_cases last : rest = []
  · rwa [last, String.intercalate_singleton]
  · rw [toList_intercalate_cons text rest last]
    exact here.append _

theorem AtEmptyLine.cons {texts : List String} {before after : List Char} {c : Char}
    (later : AtEmptyLine texts before c after) (text : String) :
    AtEmptyLine (text :: texts) (text.toList ++ '\n' :: '\n' :: before) c after := by
  obtain ⟨first, second, someFirst, someSecond, rfl, rfl, ahead⟩ := later
  exact ⟨text :: first, second, by simp, someSecond, rfl,
    (toList_intercalate_cons text first someFirst).symm, ahead⟩

theorem trailing_cases (tokens : List Token) (texts : List String)
    (neat : ∀ text ∈ texts, Neat tokens text.toList)
    (occupied : ∀ text ∈ texts, Text.Occupied text.toList) (before after : List Char) (c : Char)
    (whole : ("\n\n".intercalate texts).toList = before ++ c :: after)
    (trailing : Text.isTrailing c after = true) :
    Brought tokens before c after ∨ AtEmptyLine texts before c after := by
  induction texts generalizing before with
  | nil => simp at whole
  | cons text rest ih =>
    by_cases last : rest = []
    · rw [last, String.intercalate_singleton] at whole
      exact .inl (neat text (by simp) before c after whole trailing)
    · have alone : ("\n\n".intercalate [text]).toList = text.toList := by
        rw [String.intercalate_singleton]
      have breaks : AtEmptyLine (text :: rest) text.toList '\n'
          ('\n' :: ("\n\n".intercalate rest).toList) :=
        ⟨[text], rest, by simp, last, rfl, alone.symm, rfl⟩
      rw [toList_intercalate_cons text rest last] at whole
      rcases List.append_eq_append_iff.1 whole with ⟨inner, rfl, onward⟩ | ⟨inner, front, onward⟩
      · match inner with
        | [] =>
          obtain ⟨rfl, rfl⟩ := List.cons.inj onward
          exact .inr (by simpa using breaks)
        | [_] =>
          -- The second line break stands in front of the next text.
          obtain ⟨rfl, rfl⟩ := List.cons.inj (List.cons.inj onward).2
          have goesOn := occupied_intercalate rest last fun other member =>
            occupied other (by simp [member])
          rw [goesOn.isTrailing] at trailing
          simp at trailing
        | _ :: _ :: inner =>
          rw [List.cons_append, List.cons_append, List.cons.injEq, List.cons.injEq] at onward
          obtain ⟨rfl, rfl, onward⟩ := onward
          rcases ih (fun other member => neat other (by simp [member]))
            (fun other member => occupied other (by simp [member])) inner onward with
            brought | later
          · left
            simpa using brought.widen (text.toList ++ ['\n', '\n']) []
          · exact .inr (later.cons text)
      · match inner with
        | [] =>
          obtain ⟨rfl, rfl⟩ := List.cons.inj onward
          rw [List.append_nil] at front
          exact .inr (front ▸ breaks)
        | _ :: inner =>
          obtain ⟨rfl, rfl⟩ := List.cons.inj onward
          have brought := neat text (by simp) before c inner front
            (Text.isTrailing_of_append c inner _ trailing)
          exact .inl (brought.widen [] _)

/-- In every style and width and with any words, a text that can be read is
formatted, and every blank at the end of a line stands in a comment, a string or a quoted name
of the source, or begins the empty line between two statements, or stands in a phrase
that the source has written with a blank in front of a line break. -/
theorem trailing_blanks_covered (formatter : Formatter)
    (phrases : formatter.registry.compounds = commonPhrases) (source : String)
    (tokens : List Token) (lexed : Token.tokens? formatter.registry source = .ok tokens) :
    ∃ text, formatter.format source = .ok text ∧
      ∀ before c after, text.toList = before ++ c :: after → Text.isTrailing c after = true →
        Covered tokens before c after ∨ AtEmptyLine (formatter.texts tokens) before c after ∨
          InPhrase tokens before c after := by
  have readsText : ReadsText formatter source tokens := ⟨phrases, lexed⟩
  have formatted : formatter.format source = .ok (formatter.formatTokens tokens) := by
    rw [format, readsText.lexed]
    rfl
  refine ⟨_, formatted, fun before c after whole trailing => ?_⟩
  have each (text : String) (member : text ∈ formatter.texts tokens) :
      Neat tokens text.toList ∧ Text.Occupied text.toList := by
    obtain ⟨listed, filled⟩ := List.mem_filter.1 member
    obtain ⟨statement, part, rfl⟩ := List.mem_map.1 listed
    exact (readsText.part part).neat_text _ (by simpa using filled)
  rcases trailing_cases tokens (formatter.texts tokens) (fun text member => (each text member).1)
    (fun text member => (each text member).2) before after c whole trailing with
    (covered | phrase) | breaks
  · exact .inl covered
  · exact .inr (.inr phrase)
  · exact .inr (.inl breaks)

def blankEnds : List Token :=
  [⟨.reservedWord, "select", 0, "SELECT"⟩, .plain .blank " " 6, .plain .numberLiteral "1" 7,
    .plain .blank " " 8, .plain .comment "-- x " 9, .plain .blank "\n" 14,
    .plain .semicolon ";" 15, .plain .blank " " 16, ⟨.reservedWord, "order\n by", 17, "ORDER BY"⟩,
    .plain .blank " " 26, .plain .stringLiteral "'a \n'" 27]

theorem trailing_blanks_covered_comment :
    standard.format "select 1 -- x \n; order\n by 'a \n'" =
        .ok "SELECT 1 -- x \n;\n\nORDER BY 'a \n'" ∧
      ∀ before c after, "SELECT 1 -- x \n;\n\nORDER BY 'a \n'".toList = before ++ c :: after →
        Text.isTrailing c after = true →
        Covered blankEnds before c after ∨
          AtEmptyLine ["SELECT 1 -- x \n;", "ORDER BY 'a \n'"] before c after := by
  have lexed := (tokens?_eq_ok_iff (Registry.common {})
    "select 1 -- x \n; order\n by 'a \n'" blankEnds).2 (by decide +kernel)
  obtain ⟨text, formatted, ends⟩ := trailing_blanks_covered standard rfl _ blankEnds lexed
  have texts : standard.texts blankEnds = ["SELECT 1 -- x \n;", "ORDER BY 'a \n'"] := by
    decide +kernel
  have whole : standard.format "select 1 -- x \n; order\n by 'a \n'" =
      .ok "SELECT 1 -- x \n;\n\nORDER BY 'a \n'" := by
    rw [format, show standard.registry = (Registry.common {}) from rfl, lexed, Except.map,
      formatTokens_eq, texts]
    rfl
  rw [whole] at formatted
  obtain rfl := Except.ok.inj formatted
  rw [texts] at ends
  refine ⟨whole, fun before c after cut trailing => ?_⟩
  rcases ends before c after cut trailing with covered | breaks | phrase
  · exact .inl covered
  · exact .inr breaks
  · obtain ⟨token, member, reserved, blank, -⟩ := phrase
    have none : blankEnds.all (fun token =>
        token.kind = .reservedWord → Text.trails token.text.toList = false) = true := by decide
    have flush := List.all_eq_true.1 none token member
    simp [reserved, blank] at flush

def brokenPhrase : List Token :=
  [⟨.reservedWord, "create", 0, "CREATE"⟩, .plain .blank " " 6,
    ⟨.reservedWord, "table", 7, "TABLE"⟩, .plain .blank " " 12, .plain .identifier "t" 13,
    .plain .blank " " 14, .plain .parenOpen "(" 15, .plain .identifier "id" 16,
    .plain .blank " " 18,
    ⟨.reservedWord, "primary \nkey", 19, "PRIMARY KEY"⟩, .plain .parenClose ")" 31]

/-- It keeps its blank in front of its line break, where neither a comment nor a string nor a
quoted name is. -/
theorem broken_phrase_trails :
    Token.tokens? (Registry.common {}) "create table t (id primary \nkey)" =
        .ok brokenPhrase ∧
      standard.format "create table t (id primary \nkey)" =
        .ok "CREATE TABLE t\n(\n  id   PRIMARY \nKEY\n)" ∧
      ∃ before after,
        "CREATE TABLE t\n(\n  id   PRIMARY \nKEY\n)".toList = before ++ ' ' :: after ∧
        Text.isTrailing ' ' after = true ∧ ¬Covered brokenPhrase before ' ' after ∧
        ¬AtEmptyLine (standard.texts brokenPhrase) before ' ' after := by
  have lexed := (tokens?_eq_ok_iff (Registry.common {})
    "create table t (id primary \nkey)" brokenPhrase).2 (by decide +kernel)
  have whole : standard.format "create table t (id primary \nkey)" =
      .ok "CREATE TABLE t\n(\n  id   PRIMARY \nKEY\n)" := by
    rw [format, show standard.registry = (Registry.common {}) from rfl, lexed]
    exact congrArg Except.ok (by decide +kernel)
  refine ⟨lexed, whole, "CREATE TABLE t\n(\n  id   PRIMARY".toList, "\nKEY\n)".toList,
    by decide, by decide, ?_, ?_⟩
  · rintro ⟨token, member, verbatim, -⟩
    have none : brokenPhrase.all (!·.isVerbatim) = true := by decide
    have written := List.all_eq_true.1 none token member
    simp [verbatim] at written
  · rintro ⟨first, second, -, -, -, -, ahead⟩
    simp at ahead

end Formatter

end SqlLayout
