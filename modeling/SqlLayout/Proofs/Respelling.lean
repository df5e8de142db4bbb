import SqlLayout.Proofs.Rescanning

/-! Tokens read again in their other spellings. Words of ASCII are the same words in another
case, with other blanks between them or as the registry keeps them, so they are called the
same; all other tokens are written as they were. What must not stand behind a token is put
into `Precedes`. -/
namespace SqlLayout.Text

theorem collapse_of_visible (text : String) (filled : text ≠ "")
    (visible : ∀ c ∈ text.toList, isBlank c = false) : collapse text = text := by
  have some : text.toList ≠ [] := fun empty => filled (String.toList_eq_nil_iff.1 empty)
  have fields := fieldChars_word text.toList [] some visible (by simp)
  rw [List.append_nil, fieldChars_nil] at fields
  refine String.toList_injective ?_
  rw [collapse_toList, fields]
  simp

theorem IsAscii.collapse {text : String} (ascii : IsAscii text.toList) :
    IsAscii (Text.collapse text).toList := by
  intro c member
  rcases mem_collapse text c member with rfl | inside
  · decide
  · exact ascii c inside

theorem IsAscii.apply {text : String} (ascii : IsAscii text.toList) (choice : Style.WordCase) :
    IsAscii (choice.apply text).toList := by
  rw [choice.apply_toList_ascii text ascii]
  intro d member
  obtain ⟨c, inside, rfl⟩ := List.mem_map.1 member
  exact (choice.sameClass_letter c (ascii c inside)).ascii

end SqlLayout.Text

namespace SqlLayout.Token

open Keyword Layout Text

theorem Worded.mem_text {words : List (List Char)} {chars : List Char}
    (worded : Worded words chars) (word : List Char) (member : word ∈ words) (c : Char)
    (inside : c ∈ word) : c ∈ chars := by
  have flat : c ∈ (Text.fieldChars chars).flatten :=
    List.mem_flatten.2 ⟨word, worded.fieldChars.symm ▸ member, inside⟩
  rw [fieldChars_flatten] at flat
  exact (List.mem_filter.1 flat).1

theorem Worded.apply {words : List (List Char)} {text : String}
    (worded : Worded words text.toList) (ascii : IsAscii text.toList) (choice : Style.WordCase) :
    ∃ words', Worded words' (choice.apply text).toList ∧
      words'.map upperWord = words.map upperWord := by
  have same (c : Char) (member : c ∈ text.toList) := choice.sameClass_letter c (ascii c member)
  refine ⟨words.map (List.map choice.letter), ?_, ?_⟩
  · rw [choice.apply_toList_ascii text ascii]
    exact worded.map choice.letter (fun c member => (same c member).blank)
      (fun c member => (same c member).wordStart) fun c member => (same c member).namePart
  · rw [List.map_map]
    refine List.map_congr_left fun word member => String.toList_injective ?_
    have inside : ∀ c ∈ word, c ∈ text.toList := worded.mem_text word member
    have small : IsAscii (String.ofList word).toList := by
      intro c here
      exact ascii c (inside c (by simpa using here))
    have applied : IsAscii (String.ofList (word.map choice.letter)).toList := by
      intro d here
      rw [String.toList_ofList] at here
      obtain ⟨c, inWord, rfl⟩ := List.mem_map.1 here
      exact (same c (inside c inWord)).ascii
    rw [Function.comp_apply, upperWord, upperWord, upper_toList_ascii _ applied,
      upper_toList_ascii _ small, String.toList_ofList, String.toList_ofList, List.map_map]
    exact List.map_congr_left fun c here => (same c (inside c here)).upper

theorem Worded.spelling {words : List (List Char)} {token : Token} {text : String}
    (worded : Worded words token.text.toList) (ascii : IsAscii token.text.toList)
    (contents : token.contents = token.text ∨ token.contents = upper (Text.collapse token.text))
    (wordLike : token.kind.isWordLike = true) (spelling : Spelling token text) :
    IsAscii text.toList ∧
      ∃ words', Worded words' text.toList ∧ words'.map upperWord = words.map upperWord := by
  have collapsed : Worded words (Text.collapse token.text).toList := by
    rw [worded.collapse]
    exact worded.intercalate
  rw [Spelling, if_pos wordLike] at spelling
  obtain ⟨choice, rfl | rfl | rfl⟩ := spelling
  · exact ⟨ascii.apply choice, worded.apply ascii choice⟩
  · exact ⟨ascii.collapse.apply choice, collapsed.apply ascii.collapse choice⟩
  · rcases contents with plain | named
    · rw [plain]
      exact ⟨ascii.apply choice, worded.apply ascii choice⟩
    · obtain ⟨others, again, same⟩ := collapsed.apply ascii.collapse .upper
      have small : IsAscii (upper (Text.collapse token.text)).toList := ascii.collapse.apply .upper
      obtain ⟨last, once, equal⟩ := again.apply small choice
      rw [named]
      exact ⟨small.apply choice, last, once, equal.trans same⟩

def ScannedFrom (registry : Registry) (last : Option Token) (token : Token)
    (behind : List Char) : Prop :=
  ∃ c rest lexeme, scan? registry last c rest = some lexeme ∧ token.kind = lexeme.kind ∧
    token.text.toList = c :: rest.take lexeme.more ∧
    token.contents = lexeme.contents.getD token.text ∧ behind = rest.drop lexeme.more

theorem ScannedFrom.readFrom {registry : Registry} {last : Option Token} {token : Token}
    {behind : List Char} (scanned : ScannedFrom registry last token behind) :
    ReadFrom registry token behind := by
  obtain ⟨c, rest, lexeme, step, facts⟩ := scanned
  exact ⟨c, rest, lexeme, scans_of_scan? registry last c rest lexeme step, facts⟩

/-- A text is scanned as a token of a kind before a suffix. -/
def ScansAs (registry : Registry) (last : Option Token) (text : String) (suffix : List Char)
    (kind : Kind) (contents : String) : Prop :=
  ∃ c rest lexeme, text.toList = c :: rest ∧ scan? registry last c (rest ++ suffix) = some lexeme ∧
    lexeme.kind = kind ∧ lexeme.more = rest.length ∧ lexeme.contents.getD text = contents

/-- What stands behind a token does not go on with it. -/
structure Precedes (token : Token) (behind suffix : List Char) : Prop where
  closed : behind = [] → suffix = []
  joint : token.kind ≠ .operator → token.kind.isPunctuation = false → JointAhead suffix
  number : token.kind = .numberLiteral → suffix.head? ≠ some '.'
  operator : token.kind = .operator → token.text = "::" ∨
    token.text = "." ∧ (∀ c, suffix.head? = some c → isDigitSign c = false) ∨
    token.text ≠ "." ∧ token.text ≠ "[" ∧ Parted suffix
  words : token.kind.isWordLike = true →
    ((ahead suffix).map Prod.snd).map upperWord = ((ahead behind).map Prod.snd).map upperWord

theorem length_take_more (registry : Registry) (last : Option Token) (c : Char) (rest : List Char)
    (lexeme : Lexeme) (step : scan? registry last c rest = some lexeme) :
    (rest.take lexeme.more).length = lexeme.more := by
  rw [List.length_take]
  exact Nat.min_eq_left (scan?_more_le registry last c rest lexeme step)

theorem ScansAs.of_take {registry : Registry} {last : Option Token} {token : Token}
    {suffix : List Char} (last' : Option Token) (c : Char) (rest : List Char) (lexeme : Lexeme)
    (step : scan? registry last c rest = some lexeme) (kind : token.kind = lexeme.kind)
    (text : token.text.toList = c :: rest.take lexeme.more)
    (contents : token.contents = lexeme.contents.getD token.text)
    (again : scan? registry last' c (rest.take lexeme.more ++ suffix) = some lexeme) :
    ScansAs registry last' token.text suffix token.kind token.contents :=
  ⟨c, rest.take lexeme.more, lexeme, text, again, kind.symm,
    (length_take_more registry last c rest lexeme step).symm, contents.symm⟩

theorem scan?_of_marked (registry : Registry) (last : Option Token) (c : Char) (rest : List Char)
    (lexeme : Lexeme) (marked : marked? c rest = some lexeme) :
    scan? registry last c rest = some lexeme := by
  rw [scan?, marked]

theorem scan?_of_unmarked (registry : Registry) (last : Option Token) (c : Char)
    (rest : List Char) (unmarked : marked? c rest = none) (noNumber : startsNumber c rest = false) :
    scan? registry last c rest =
      some ((signed? last c rest).getD (wordOrOperator registry c rest)) := by
  simp [scan?, unmarked, noNumber]

theorem kind_of_unmarked (registry : Registry) (last : Option Token) (c : Char)
    (rest : List Char) (lexeme : Lexeme) (unmarked : marked? c rest = none)
    (step : scan? registry last c rest = some lexeme) :
    lexeme.kind = .numberLiteral ∨ lexeme.kind.isWordLike = true ∨ lexeme.kind = .operator := by
  cases scans_of_scan? registry last c rest lexeme step with
  | number | signed => exact .inl rfl
  | word _ _ kind =>
    right; left
    rcases kind with kind | kind <;> rw [kind] <;> rfl
  | operator _ _ kind => exact .inr (.inr kind)
  | blank isBlank => simp [marked?, isBlank] at unmarked
  | line first second =>
    have blank : Text.isBlank '-' = false := by decide
    simp [marked?, first, second, blank] at unmarked
  | block first second =>
    have blank : Text.isBlank '/' = false := by decide
    simp [marked?, first, second, blank] at unmarked
  | quoted lexeme found _ => simp [marked?_of_quoted c rest lexeme found] at unmarked
  | bracket first => simp [first, marked?_bracket] at unmarked
  | dollar first lexeme found => simp [first, marked?_dollar, found] at unmarked
  | question first => simp [first, marked?_question] at unmarked
  | bound first follows => simp [first, marked?_colon, bound?, follows] at unmarked
  | special first follows =>
    rw [marked?_special c rest first, specialName?] at unmarked
    split at unmarked
    · rename_i none
      exact absurd none follows
    · simp at unmarked
  | punctuation mark first =>
    have sign : punctuation? c = some mark := by
      rcases first with same | same | same | same <;> obtain ⟨rfl, rfl⟩ := same <;> rfl
    simp [marked?_punctuation c mark rest sign] at unmarked

theorem ScannedFrom.literal {registry : Registry} {last : Option Token} {token : Token}
    {behind suffix : List Char} (scanned : ScannedFrom registry last token behind)
    (precedes : Precedes token behind suffix) (visible : token.kind ≠ .blank)
    (code : token.kind ≠ .comment) (notNumber : token.kind ≠ .numberLiteral)
    (notWord : token.kind.isWordLike = false) (notOperator : token.kind ≠ .operator)
    (last' : Option Token) :
    ScansAs registry last' token.text suffix token.kind token.contents := by
  obtain ⟨c, rest, lexeme, step, kind, text, contents, rfl⟩ := scanned
  refine .of_take last' c rest lexeme step kind text contents (scan?_of_marked _ _ _ _ _ ?_)
  cases marked : marked? c rest with
  | none =>
    rcases kind_of_unmarked registry last c rest lexeme marked step with number | word | operator
    · exact absurd (kind.trans number) notNumber
    · rw [kind, word] at notWord
      simp at notWord
    · exact absurd (kind.trans operator) notOperator
  | some found =>
    rw [scan?_of_marked registry last c rest found marked] at step
    obtain rfl := Option.some.inj step
    refine marked?_take c rest suffix found marked (kind ▸ visible) (kind ▸ code)
      (kind ▸ notOperator) precedes.closed fun sign => precedes.joint notOperator ?_
    rw [kind]
    exact sign

theorem isDigitSign_of_isDecimal (c : Char) (digit : isDecimal c = true) :
    isDigitSign c = true := by
  have covered : decimalRanges.all (fun range =>
      digitSignRanges.any fun wider => wider.1 ≤ range.1 && range.2 ≤ wider.2) = true := by
    decide
  obtain ⟨range, member, low, high⟩ := exists_range_of_inRanges _ _ digit
  obtain ⟨wider, signs, inside⟩ := List.any_eq_true.1 (List.all_eq_true.1 covered range member)
  simp only [Bool.and_eq_true, decide_eq_true_eq] at inside
  exact inRanges_of_mem digitSignRanges (by decide) wider signs c.toNat (by omega)
    (by omega)

theorem startsNumber_of_numberLength? (c : Char) (rest : List Char) (length : Nat)
    (found : numberLength? (c :: rest) = some length) : startsNumber c rest = true := by
  obtain ⟨mantissa, step, -⟩ := Option.map_eq_some_iff.1 found
  unfold mantissaLength? at step
  by_cases digit : isDecimal c = true
  · simp [startsNumber, isDigitSign_of_isDecimal c digit]
  · have none : spanLength isDecimal (c :: rest) = 0 := by simp [spanLength, digit]
    rw [none] at step
    simp only at step
    split at step
    · rename_i others same
      obtain ⟨rfl, rfl⟩ := List.cons.inj same
      split at step
      · simp at step
      · rename_i digits
        cases rest with
        | nil => exact absurd rfl digits
        | cons first others =>
          have next : isDecimal first = true := by
            by_contra other
            exact digits (by simp [spanLength, other])
          simp [startsNumber, isDigitSign_of_isDecimal first next]
    · simp at step

theorem marked?_of_numeral (c : Char) (rest suffix : List Char) (numeral : isNumeral c = true)
    (unmarked : marked? c rest = none) : marked? c suffix = none := by
  have apart (sign : Char) (other : isNumeral sign = false) : c ≠ sign := by
    rintro rfl
    simp [numeral] at other
  refine marked?_eq_none c suffix (isBlank_of_unmarked c rest unmarked)
    (fun both => apart '-' (by decide) both.1) (fun both => apart '/' (by decide) both.1) ?_ ?_
  · cases found : quoted? c suffix with
    | none => rfl
    | some lexeme =>
      have none : ['\'', 'N', 'n', 'E', 'e', 'X', 'x', 'B', 'b', 'U', 'u', '"', '`'].all
          (!isNumeral ·) = true := by decide
      have here := List.all_eq_true.1 none c (lead_of_quoted? c suffix lexeme found)
      simp [numeral] at here
  · have none : ['[', '$', '?', ':', '@', '#', '(', ')', ',', ';'].all (!isNumeral ·) = true := by
      decide
    by_contra inside
    rw [Bool.not_eq_false, List.contains_iff_mem] at inside
    have here := List.all_eq_true.1 none c inside
    simp [numeral] at here

theorem scan?_of_number (registry : Registry) (last : Option Token) (c : Char) (rest : List Char)
    (length : Nat) (unmarked : marked? c rest = none)
    (found : numberLength? (c :: rest) = some length) :
    scan? registry last c rest = some { kind := .numberLiteral, more := length - 1 } := by
  simp [scan?, unmarked, startsNumber_of_numberLength? c rest length found, found]

/-- A sign before a number is looked at only if no number starts with it. -/
theorem scan?_of_sign (registry : Registry) (last : Option Token) (c : Char) (rest : List Char)
    (sign : c = '+' ∨ c = '-') (unmarked : marked? c rest = none) :
    scan? registry last c rest =
      some ((signed? last c rest).getD (operatorLexeme c rest)) := by
  have noNumber : startsNumber c rest = false := by
    rcases sign with rfl | rfl <;> simp [startsNumber] <;> decide
  have noWord : isWordStart c = false := by rcases sign with rfl | rfl <;> decide
  rw [scan?_of_unmarked registry last c rest unmarked noNumber, wordOrOperator, wordLength?,
    if_neg (by simp [noWord])]

theorem marked?_of_sign (c : Char) (rest : List Char) (sign : c = '+' ∨ c = '-')
    (apart : rest.head? ≠ some '-') : marked? c rest = none := by
  have blank : Text.isBlank c = false := by rcases sign with rfl | rfl <;> decide
  refine marked?_eq_none c rest blank (fun both => apart both.2) ?_ ?_ ?_
  · rintro ⟨rfl, -⟩
    simp at sign
  · rcases sign with rfl | rfl <;> simp [quoted?, isStringMark]
  · rcases sign with rfl | rfl <;> decide

theorem any_isOperand_of_signed (registry : Registry) (last : Option Token) (c : Char)
    (rest : List Char) (lexeme : Lexeme) (sign : c = '+' ∨ c = '-')
    (unmarked : marked? c rest = none) (step : scan? registry last c rest = some lexeme)
    (kind : lexeme.kind = .numberLiteral) : last.any isOperand = false := by
  by_contra after
  rw [scan?_of_sign registry last c rest sign unmarked, signed?, if_neg (by simp [after]),
    Option.getD_none] at step
  rw [← Option.some.inj step, kind_of_operatorLexeme] at kind
  simp at kind

theorem ScannedFrom.number {registry : Registry} {last : Option Token} {token : Token}
    {behind suffix : List Char} (scanned : ScannedFrom registry last token behind)
    (precedes : Precedes token behind suffix) (kind : token.kind = .numberLiteral)
    (last' : Option Token) (operand : last'.any isOperand = last.any isOperand) :
    ScansAs registry last' token.text suffix token.kind token.contents := by
  have joint := precedes.joint (by simp [kind]) (by rw [kind]; rfl)
  have ends : NumberEnds suffix :=
    { digit := joint.outside isDecimal (by decide)
      point := precedes.number kind
      exponent := fun c head => by
        simpa using joint.outside (fun c => c = 'e' || c = 'E') (by decide) c head }
  obtain ⟨c, rest, lexeme, step, same, text, contents, rfl⟩ := scanned
  refine .of_take last' c rest lexeme step same text contents ?_
  rw [kind] at same
  cases scans_of_scan? registry last c rest lexeme step with
  | number unmarked length found =>
    have positive := Clear.numberLength?_pos _ length found
    have again := numberLength?_take (c :: rest) suffix length found ends
    obtain ⟨more, rfl⟩ : ∃ more, length = more + 1 := ⟨length - 1, by omega⟩
    rw [List.take_succ_cons, List.cons_append] at again
    obtain ⟨first, head, numeral⟩ := numeral_of_numberLength? _ _ found
    obtain rfl : c = first := by simpa using head
    exact scan?_of_number registry last' c _ _ (marked?_of_numeral c rest _ numeral unmarked) again
  | signed unmarked first length found =>
    have again := numberLength?_take rest suffix length found ends
    simp only
    have unmarkedHere : marked? c (rest.take length ++ suffix) = none := by
      refine marked?_of_sign c _ first fun hyphen => ?_
      obtain ⟨digit, head, numeral⟩ := numeral_of_numberLength? _ _ again
      rw [hyphen] at head
      rw [← Option.some.inj head] at numeral
      exact absurd numeral (by decide)
    have free := any_isOperand_of_signed registry last c rest _ first unmarked step rfl
    rw [scan?_of_sign registry last' c _ first unmarkedHere, signed?,
      if_pos ⟨first, by rw [operand, free]; rfl⟩, again]
    rfl
  | word _ _ given => rcases given with given | given <;> simp [given] at same
  | _ => grind [lineComment]

theorem more_of_bracketed (rest : List Char) (single : (bracketed rest).kind = .operator) :
    (bracketed rest).more = 0 := by
  unfold bracketed at single ⊢
  simp only at single ⊢
  split at single
  · simp at single
  · rename_i unnamed
    rw [if_neg unnamed]

theorem scan?_of_operator (registry : Registry) (last : Option Token) (c : Char)
    (rest : List Char) (unmarked : marked? c rest = none) (noNumber : startsNumber c rest = false)
    (noWord : isWordStart c = false)
    (unsigned : c = '+' ∨ c = '-' → ∀ d, rest.head? = some d → isNumeral d = false) :
    scan? registry last c rest = some (operatorLexeme c rest) := by
  have none : signed? last c rest = none := by
    unfold signed?
    split
    · rename_i signs
      cases found : numberLength? rest with
      | none => rfl
      | some length =>
        obtain ⟨d, head, numeral⟩ := numeral_of_numberLength? rest length found
        rw [unsigned signs.1 d head] at numeral
        simp at numeral
    · rfl
  rw [scan?_of_unmarked registry last c rest unmarked noNumber, none, wordOrOperator, wordLength?,
    if_neg (by simp [noWord])]
  rfl

/-- What comes next behind an operator's first character is part of the operator, or parts
it from what follows. -/
theorem head_of_operator (c : Char) (rest suffix : List Char) (parted : Parted suffix) (d : Char)
    (head : (rest.take (operatorLexeme c rest).more ++ suffix).head? = some d) :
    d ∈ partingChars ∨
      rest.head? = some d ∧ ∃ operator ∈ longOperators, operator.head? = some c ∧
        d ∈ operator.tail := by
  rcases operatorLexeme_cases c rest with long | single
  · cases rest with
    | nil =>
      rw [List.take_nil, List.nil_append] at head
      exact .inl (parted d head)
    | cons first others =>
      cases more : (operatorLexeme c (first :: others)).more with
      | zero =>
        rw [more, List.take_zero, List.nil_append] at head
        exact .inl (parted d head)
      | succ more' =>
        rw [more, List.take_succ_cons] at head long
        obtain rfl : first = d := by simpa using head
        exact .inr ⟨rfl, _, long, rfl, by simp⟩
  · rw [single, List.take_zero, List.nil_append] at head
    exact .inl (parted d head)

theorem dollar?_of_parted (suffix : List Char) (parted : Parted suffix) :
    dollar? suffix = none := by
  cases suffix with
  | nil => rfl
  | cons d rest =>
    have digit := parted.outside Text.isDecimal (by decide) d rfl
    have start := parted.outside Text.isWordStart (by decide) d rfl
    have apart := parted.outside ['[', '{', '$'].contains (by decide) d rfl
    simp only [List.contains_cons, List.contains_nil, Bool.or_false, Bool.or_eq_false_iff,
      beq_eq_false_iff_ne] at apart
    have none : spanLength Text.isDecimal (d :: rest) = 0 := by simp [spanLength, digit]
    rw [dollar?_of_other d rest apart.1 apart.2.1, none]
    simp [tagged?, start, apart.2.2]

theorem marked?_of_operator (c : Char) (rest suffix : List Char) (unmarked : marked? c rest = none)
    (noWord : isWordStart c = false) (parted : Parted suffix) :
    marked? c (rest.take (operatorLexeme c rest).more ++ suffix) = none := by
  have next := head_of_operator c rest suffix parted
  have single (sign : c = '$' ∨ c = '@' ∨ c = '#') : (operatorLexeme c rest).more = 0 := by
    rcases operatorLexeme_cases c rest with long | single
    · have none : longOperators.all (fun operator =>
          !(['$', '@', '#'].any fun sign => operator.head? = some sign)) = true := by decide
      have here := List.all_eq_true.1 none _ long
      rcases sign with rfl | rfl | rfl <;> simp at here
    · exact single
  have apart (sign d : Char) (noParting : d ∉ partingChars) (first : c = sign)
      (head : (rest.take (operatorLexeme c rest).more ++ suffix).head? = some d) :
      rest.head? = some d := by
    rcases next d head with parting | ⟨same, -⟩
    · exact absurd parting noParting
    · exact same
  by_cases isDollar : c = '$'
  · rw [single (.inl isDollar), isDollar, List.take_zero, List.nil_append, marked?_dollar,
      dollar?_of_parted suffix parted]
  by_cases isColon : c = ':'
  · subst isColon
    rw [marked?_colon] at unmarked ⊢
    rw [bound?, if_neg]
    simp only [Option.any_eq_true, not_exists, not_and, Bool.not_eq_true]
    intro d head
    rcases next d head with parting | ⟨same, -⟩
    · have none : partingChars.all (!isWordStart ·) = true := by decide
      simpa using List.all_eq_true.1 none d parting
    · by_contra start
      simp [bound?, same, start] at unmarked
  by_cases isSpecial : c = '@' ∨ c = '#'
  · rw [single (.inr isSpecial), List.take_zero, List.nil_append, marked?_special c _ isSpecial,
      specialName?]
    have none : spanLength isSpecialNamePart suffix = 0 := by
      cases suffix with
      | nil => rfl
      | cons d rest =>
        have other := parted.outside isSpecialNamePart (by decide) d rfl
        simp [spanLength, other]
    rw [none]
    rfl
  have visible := isBlank_of_unmarked c rest unmarked
  refine marked?_eq_none c _ visible ?_ ?_ ?_ ?_
  · rintro ⟨rfl, head⟩
    have same := apart '-' '-' (by decide) rfl head
    simp [marked?, visible, same] at unmarked
  · rintro ⟨rfl, head⟩
    have same := apart '/' '*' (by decide) rfl head
    simp [marked?, visible, same] at unmarked
  · cases found : quoted? c (rest.take (operatorLexeme c rest).more ++ suffix) with
    | none => rfl
    | some lexeme =>
      have letters : ['N', 'n', 'E', 'e', 'X', 'x', 'B', 'b', 'U', 'u'].all isWordStart = true := by
        decide
      have lead := lead_of_quoted? c _ lexeme found
      by_cases letter : c ∈ ['N', 'n', 'E', 'e', 'X', 'x', 'B', 'b', 'U', 'u']
      · rw [List.all_eq_true.1 letters c letter] at noWord
        simp at noWord
      · have quote : c = '\'' ∨ c = '"' ∨ c = '`' := by
          simp only [List.mem_cons, List.not_mem_nil, or_false] at lead letter
          grind
        rcases quote with rfl | rfl | rfl <;>
          simp [marked?, visible, quoted?, isStringMark] at unmarked
  · by_contra inside
    rw [Bool.not_eq_false, List.contains_iff_mem] at inside
    simp only [List.mem_cons, List.not_mem_nil, or_false] at inside
    rcases inside with rfl | rfl | rfl | rfl | rfl | rfl | rfl | rfl | rfl | rfl
    · simp [marked?_bracket] at unmarked
    · exact isDollar rfl
    · simp [marked?_question] at unmarked
    · exact isColon rfl
    · exact isSpecial (.inl rfl)
    · exact isSpecial (.inr rfl)
    all_goals simp [marked?, visible, quoted?, isStringMark, punctuation?] at unmarked

theorem isDigitSign_of_unmarked (registry : Registry) (last : Option Token) (c : Char)
    (rest : List Char) (lexeme : Lexeme) (unmarked : marked? c rest = none)
    (step : scan? registry last c rest = some lexeme) (kind : lexeme.kind ≠ .numberLiteral) :
    isDigitSign c = false := by
  by_contra digit
  rw [Bool.not_eq_false] at digit
  rw [scan?, unmarked] at step
  simp only [startsNumber, digit, Bool.true_or, if_pos] at step
  obtain ⟨length, -, rfl⟩ := Option.map_eq_some_iff.1 step
  exact kind rfl

theorem operatorLexeme_eq (c : Char) (rest : List Char) :
    operatorLexeme c rest = { kind := .operator, more := (operatorLexeme c rest).more } := by
  unfold operatorLexeme
  split <;> rfl

theorem scan?_of_colons (registry : Registry) (last : Option Token) (suffix : List Char) :
    scan? registry last ':' (':' :: suffix) = some { kind := .operator, more := 1 } := by
  have noStart : isWordStart ':' = false := by decide
  have unmarked : marked? ':' (':' :: suffix) = none := by
    rw [marked?_colon, bound?, if_neg (by simp [noStart])]
  have noDigit : isDigitSign ':' = false := by decide
  rw [scan?_of_operator registry last ':' _ unmarked (by simp [startsNumber, noDigit]) noStart
    (by simp)]
  rfl

theorem scan?_of_point (registry : Registry) (last : Option Token) (suffix : List Char)
    (apart : ∀ c, suffix.head? = some c → isDigitSign c = false) :
    scan? registry last '.' suffix = some { kind := .operator, more := 0 } := by
  have noStart : isWordStart '.' = false := by decide
  have unmarked : marked? '.' suffix = none := by
    refine marked?_eq_none '.' suffix (by decide) (by simp) (by simp) ?_ (by decide)
    simp [quoted?, isStringMark]
  have noDigit : isDigitSign '.' = false := by decide
  have noNumber : startsNumber '.' suffix = false := by
    cases head : suffix.head? with
    | none => simp [startsNumber, noDigit, head]
    | some c => simp [startsNumber, noDigit, head, apart c head]
  rw [scan?_of_operator registry last '.' _ unmarked noNumber noStart (by simp)]
  rfl

theorem scan?_of_parted (registry : Registry) (last last' : Option Token) (c : Char)
    (rest suffix : List Char) (unmarked : marked? c rest = none)
    (noWord : isWordStart c = false)
    (step : scan? registry last c rest = some (operatorLexeme c rest)) (noPoint : c ≠ '.')
    (parted : Parted suffix) :
    scan? registry last' c (rest.take (operatorLexeme c rest).more ++ suffix) =
      some (operatorLexeme c rest) := by
  have noDigit := isDigitSign_of_unmarked registry last c rest _ unmarked step
    (by simp [kind_of_operatorLexeme])
  rw [scan?_of_operator registry last' c _
    (marked?_of_operator c rest suffix unmarked noWord parted)
    (by simp [startsNumber, noDigit, noPoint]) noWord, operatorLexeme_take c rest suffix parted]
  intro _ d head
  rcases head_of_operator c rest suffix parted d head with
    parting | ⟨-, operator, member, -, inside⟩
  · have none : partingChars.all (!isNumeral ·) = true := by decide
    simpa using List.all_eq_true.1 none d parting
  · have none : longOperators.all (fun operator => operator.tail.all (!isNumeral ·)) = true := by
      decide
    simpa using List.all_eq_true.1 (List.all_eq_true.1 none operator member) d inside

theorem ScannedFrom.operator {registry : Registry} {last : Option Token} {token : Token}
    {behind suffix : List Char} (scanned : ScannedFrom registry last token behind)
    (precedes : Precedes token behind suffix) (kind : token.kind = .operator)
    (last' : Option Token) :
    ScansAs registry last' token.text suffix token.kind token.contents := by
  obtain ⟨c, rest, lexeme, step, same, text, contents, rfl⟩ := scanned
  have size := length_take_more registry last c rest lexeme step
  rw [kind] at same
  cases scans_of_scan? registry last c rest lexeme step with
  | bracket first _ =>
    rw [more_of_bracketed rest same.symm, List.take_zero, first] at text
    have named : token.text = "[" := String.toList_injective text
    rcases precedes.operator kind with joins | ⟨point, -⟩ | ⟨-, other, -⟩
    · simp [named] at joins
    · simp [named] at point
    · exact absurd named other
  | operator unmarked noWord _ =>
    refine .of_take last' c rest _ step (kind.trans same) text contents ?_
    rcases precedes.operator kind with joins | ⟨point, apart⟩ | ⟨noPoint, -, parted⟩
    · have colons : ':' :: [':'] = c :: rest.take (operatorLexeme c rest).more := by
        rw [← text, joins]
        rfl
      obtain ⟨rfl, others⟩ := List.cons.inj colons
      rw [← others] at size ⊢
      rw [operatorLexeme_eq, ← size]
      exact scan?_of_colons registry last' suffix
    · have point : '.' :: [] = c :: rest.take (operatorLexeme c rest).more := by
        rw [← text, point]
        rfl
      obtain ⟨rfl, others⟩ := List.cons.inj point
      rw [← others] at size ⊢
      rw [operatorLexeme_eq, ← size]
      exact scan?_of_point registry last' suffix apart
    · refine scan?_of_parted registry last last' c rest suffix unmarked noWord step ?_ parted
      rintro rfl
      rcases operatorLexeme_cases '.' rest with long | single
      · have none : longOperators.all (fun operator => operator.head? ≠ some '.') = true := by
          decide
        simpa using List.all_eq_true.1 none _ long
      · rw [single, List.take_zero] at text
        exact noPoint (String.toList_injective text)
  | word _ _ given => rcases given with given | given <;> simp [given] at same
  | _ => grind [lineComment]

theorem isDigitSign_of_isWordStart (c : Char) (ascii : c.toNat < 128)
    (starts : isWordStart c = true) : isDigitSign c = false :=
  forall_ascii (fun c => isWordStart c = true → isDigitSign c = false) (by decide) c ascii
    starts

theorem marked?_of_word (c : Char) (rest : List Char) (starts : isWordStart c = true)
    (quote : rest.head? ≠ some '\'') (sign : rest.head? ≠ some '&') : marked? c rest = none := by
  have apart (sign : Char) (other : isWordStart sign = false) : c ≠ sign := by
    rintro rfl
    simp [starts] at other
  have noQuote : ¬['&', '\''].isPrefixOf rest = true := by
    intro front
    obtain ⟨others, rfl⟩ := List.isPrefixOf_iff_prefix.1 front
    exact sign rfl
  refine marked?_eq_none c rest (isBlank_of_isWordStart c starts)
    (fun both => apart '-' (by decide) both.1)
    (fun both => apart '/' (by decide) both.1) ?_ ?_
  · simp [quoted?, quote, noQuote, apart '\'' (by decide), apart '"' (by decide +kernel),
      apart '`' (by decide)]
  · have none : ['[', '$', '?', ':', '@', '#', '(', ')', ',', ';'].all (!isWordStart ·) = true := by
      decide
    by_contra inside
    rw [Bool.not_eq_false, List.contains_iff_mem] at inside
    have here := List.all_eq_true.1 none c inside
    simp [starts] at here

theorem scan?_of_word (registry : Registry) (last : Option Token) (c : Char) (rest : List Char)
    (noDigit : isDigitSign c = false) (starts : isWordStart c = true)
    (quote : rest.head? ≠ some '\'') (sign : rest.head? ≠ some '&') :
    scan? registry last c rest =
      some (wordLexeme registry c rest (1 + spanLength isNamePart rest)) := by
  have noNumber : startsNumber c rest = false := by
    have noPoint : c ≠ '.' := by
      rintro rfl
      exact absurd starts (by decide)
    simp [startsNumber, noDigit, noPoint]
  have unsigned : signed? last c rest = none := by
    rw [signed?, if_neg]
    rintro ⟨rfl | rfl, -⟩ <;> exact absurd starts (by decide)
  rw [scan?_of_unmarked registry last c rest (marked?_of_word c rest starts quote sign) noNumber,
    unsigned, wordOrOperator, wordLength?, if_pos starts]
  rfl

theorem Worded.part_or_blank {words : List (List Char)} {chars : List Char}
    (worded : Worded words chars) (c : Char) (member : c ∈ chars) :
    isNamePart c = true ∨ Text.isBlank c = true := by
  induction worded with
  | single plain => exact .inl (plain.parts c member)
  | cons plain apart blank more ih =>
    rcases List.mem_append.1 member with inWord | later
    · exact .inl (plain.parts c inWord)
    · rcases List.mem_append.1 later with inGap | inRest
      · exact .inr (blank c inGap)
      · exact ih inRest

theorem Worded.start {words : List (List Char)} {chars : List Char} (worded : Worded words chars) :
    ∃ c rest, chars = c :: rest ∧ isWordStart c = true := by
  obtain ⟨word, behind, -, -, -, plain, rfl, -⟩ := worded.ahead [] (by simp [NameEnds])
  obtain ⟨c, rest, rfl, starts⟩ := plain.start
  exact ⟨c, rest ++ behind, rfl, starts⟩

theorem Worded.scansAs {words : List (List Char)} {text : String}
    (worded : Worded words text.toList)
    (noDigit : ∀ c, text.toList.head? = some c → isDigitSign c = false) (registry : Registry)
    (last : Option Token) (suffix : List Char) (joint : JointAhead suffix) (kind : Kind)
    (contents : Option String)
    (named : Named registry words ((Token.ahead suffix).map Prod.snd) kind contents) :
    ScansAs registry last text suffix kind (contents.getD text) := by
  have ends : NameEnds suffix := joint.outside isNamePart (by decide)
  obtain ⟨c, others, whole, starts⟩ := worded.start
  have apart (sign : Char) (noPart : isNamePart sign = false) (visible : Text.isBlank sign = false)
      (noJoint : isJoint sign = false) : (others ++ suffix).head? ≠ some sign := by
    intro head
    cases rest : others with
    | nil =>
      rw [rest, List.nil_append] at head
      exact joint.head_ne sign noJoint head
    | cons d tail =>
      rw [rest] at head whole
      obtain rfl : d = sign := by simpa using head
      have inside : d ∈ text.toList := by simp [whole]
      rcases worded.part_or_blank d inside with part | blank
      · simp [part] at noPart
      · simp [blank] at visible
  refine ⟨c, others, { kind, more := others.length, contents }, whole, ?_, rfl, rfl, rfl⟩
  rw [scan?_of_word registry last c _ (noDigit c (by simp [whole])) starts
    (apart '\'' (by decide) (by decide) (by decide))
    (apart '&' (by decide) (by decide) (by decide)),
    wordLexeme_of_named registry words c _ suffix (whole ▸ worded) ends kind contents named]

inductive WordRead (registry : Registry) (token : Token) (behind : List Char) : Prop
  | words (words : List (List Char)) (given : Option String)
      (worded : Worded words token.text.toList) (ends : NameEnds behind)
      (named : Named registry words ((Token.ahead behind).map Prod.snd) token.kind given)
      (contents : token.contents = given.getD token.text)
      (free : token.kind ≠ .reservedWord → given = none)
  | special (c : Char) (name : List Char) (whole : token.text.toList = c :: name)
      (sign : c = '@' ∨ c = '#') (filled : name ≠ [])
      (parts : ∀ d ∈ name, isSpecialNamePart d = true) (ends : NameEnds behind)
      (kind : token.kind = .identifier) (contents : token.contents = token.text)

theorem ReadFrom.wordRead {registry : Registry} {token : Token} {behind : List Char}
    (read : ReadFrom registry token behind) (wordLike : token.kind.isWordLike = true) :
    WordRead registry token behind := by
  obtain ⟨c, rest, lexeme, scans, kind, whole, contents, rfl⟩ := read
  rw [kind] at wordLike
  cases scans with
  | special sign follows =>
    refine .special c _ whole sign ?_ (belongs_of_mem_span isSpecialNamePart rest) ?_ kind contents
    · intro nothing
      rw [← length_take_span, nothing] at follows
      exact follows rfl
    · intro d head
      have stops := List.head?_dropWhile_not isSpecialNamePart rest
      rw [← drop_spanLength, head] at stops
      by_contra part
      simp [isSpecialNamePart, part] at stops
  | word unmarked starts _ =>
    obtain ⟨words, worded, ends, named⟩ := named_of_wordLexeme registry c rest starts _ rfl
    have free := contents_of_wordLexeme_free registry c rest (1 + spanLength isNamePart rest)
    rw [← whole] at worded
    rw [← kind] at named free
    exact .words words _ worded ends named contents free
  | _ => grind [Kind.isPunctuation, Kind.isWordLike, lineComment]

theorem WordRead.nameEnds {registry : Registry} {token : Token} {behind : List Char}
    (read : WordRead registry token behind) : NameEnds behind := by
  cases read with
  | words _ _ _ ends => exact ends
  | special _ _ _ _ _ _ ends => exact ends

theorem WordRead.called {registry : Registry} {token : Token} {behind : List Char}
    (read : WordRead registry token behind) (spells : registry.compounds.spells [] = true) :
    token.contents = token.text ∨ token.contents = upper (Text.collapse token.text) := by
  cases read with
  | words words given worded ends named contents free =>
    rw [contents]
    by_cases reserved : token.kind = .reservedWord
    · rw [named.contents spells reserved, worded.upper_collapse]
      exact .inr rfl
    · rw [free reserved]
      exact .inl rfl
  | special _ _ _ _ _ _ _ _ contents => exact .inl contents

inductive Respelled (token : Token) (text : String) : Prop
  | words (before after : List (List Char)) (worded : Worded before token.text.toList)
      (again : Worded after text.toList) (same : after.map upperWord = before.map upperWord)
  | special (c : Char) (name : List Char) (whole : text.toList = c :: name)
      (head : token.text.toList.head? = some c) (sign : c = '@' ∨ c = '#') (filled : name ≠ [])
      (parts : ∀ d ∈ name, isSpecialNamePart d = true)
      (same : upper (Text.collapse text) = upper (Text.collapse token.text))

theorem collapse_of_special {text : String} {c : Char} {name : List Char}
    (whole : text.toList = c :: name) (sign : c = '@' ∨ c = '#')
    (parts : ∀ d ∈ name, isSpecialNamePart d = true) : Text.collapse text = text := by
  refine collapse_of_visible text ?_ fun d member => ?_
  · rintro rfl
    simp at whole
  rw [whole] at member
  rcases List.mem_cons.1 member with rfl | inside
  · rcases sign with rfl | rfl <;> decide
  · have part := parts d inside
    simp only [isSpecialNamePart, Bool.or_eq_true, decide_eq_true_eq] at part
    rcases part with part | rfl
    · exact isBlank_of_isNamePart d part
    · decide

theorem upper_apply_ascii (choice : Style.WordCase) (text : String) (ascii : IsAscii text.toList) :
    upper (choice.apply text) = upper text := by
  refine String.toList_injective ?_
  rw [upper_toList_ascii _ (ascii.apply choice), upper_toList_ascii _ ascii,
    choice.apply_toList_ascii text ascii, List.map_map]
  exact List.map_congr_left fun c member => (choice.sameClass_letter c (ascii c member)).upper

theorem WordRead.respelled {registry : Registry} {token : Token} {behind : List Char}
    (read : WordRead registry token behind) (wordLike : token.kind.isWordLike = true)
    (spells : registry.compounds.spells [] = true) (ascii : IsAscii token.text.toList)
    (text : String) (spelling : Spelling token text) :
    IsAscii text.toList ∧ Respelled token text := by
  have called := read.called spells
  cases read with
  | words words given worded ends named contents free =>
    obtain ⟨small, after, again, same⟩ := worded.spelling ascii called wordLike spelling
    exact ⟨small, .words words after worded again same⟩
  | special c name whole sign filled parts ends kind contents =>
    rw [Spelling, if_pos wordLike, collapse_of_special whole sign parts, contents] at spelling
    simp only [or_self] at spelling
    obtain ⟨choice, rfl⟩ := spelling
    have same (d : Char) (member : d ∈ token.text.toList) :=
      choice.sameClass_letter d (ascii d member)
    have noStart : isWordStart c = false := by rcases sign with rfl | rfl <;> decide
    have again : (choice.apply token.text).toList = c :: name.map choice.letter := by
      rw [choice.apply_toList_ascii _ ascii, whole, List.map_cons,
        (same c (by simp [whole])).sign noStart]
    have partsThere : ∀ d ∈ name.map choice.letter, isSpecialNamePart d = true := by
      intro d member
      obtain ⟨first, inside, rfl⟩ := List.mem_map.1 member
      rw [(same first (by simp [whole, inside])).specialPart]
      exact parts first inside
    refine ⟨ascii.apply choice, .special c _ again (by simp [whole]) sign (by simpa using filled)
      partsThere ?_⟩
    rw [collapse_of_special again sign partsThere, collapse_of_special whole sign parts,
      upper_apply_ascii choice _ ascii]

theorem Respelled.letters {token : Token} {text : String} (respelled : Respelled token text) :
    upper (Text.collapse text) = upper (Text.collapse token.text) := by
  cases respelled with
  | words before after worded again same => rw [again.upper_collapse, worded.upper_collapse, same]
  | special _ _ _ _ _ _ _ same => exact same

/-- What a token is called when it is written with a text. -/
def calledAs (token : Token) (text : String) : String :=
  if token.isReserved then token.contents else text

theorem calledAs_of_free (token : Token) (text : String) (free : token.kind ≠ .reservedWord) :
    token.calledAs text = text := by
  simp [calledAs, isReserved, free]

theorem Worded.unique {first second : List (List Char)} {chars : List Char}
    (worded : Worded first chars) (other : Worded second chars) : first = second :=
  worded.fieldChars.symm.trans other.fieldChars

theorem Worded.head_not_sign {words : List (List Char)} {chars : List Char}
    (worded : Worded words chars) (c : Char) (head : chars.head? = some c)
    (sign : c = '@' ∨ c = '#') : False := by
  obtain ⟨first, rest, rfl, starts⟩ := worded.start
  obtain rfl : first = c := by simpa using head
  rcases sign with rfl | rfl <;> exact absurd starts (by decide)

theorem Respelled.scansAs {registry : Registry} {token : Token} {behind suffix : List Char}
    {text : String} (respelled : Respelled token text) (small : IsAscii text.toList)
    (read : WordRead registry token behind) (spells : registry.compounds.spells [] = true)
    (next : ((ahead suffix).map Prod.snd).map upperWord =
      ((ahead behind).map Prod.snd).map upperWord)
    (joint : JointAhead suffix) (last : Option Token) :
    ScansAs registry last text suffix token.kind (token.calledAs text) := by
  cases read with
  | words words given worded ends named contents free =>
    cases respelled with
    | words before after other again same =>
      rw [← worded.unique other] at same
      have noDigit (c : Char) (head : text.toList.head? = some c) : isDigitSign c = false := by
        obtain ⟨first, rest, whole, starts⟩ := again.start
        obtain rfl : first = c := by simpa [whole] using head
        exact isDigitSign_of_isWordStart first (small first (by simp [whole])) starts
      have scans := again.scansAs noDigit registry last suffix joint _ _ (named.congr same next)
      by_cases reserved : token.kind = .reservedWord
      · rw [named.contents spells reserved] at scans contents
        rw [calledAs, isReserved, if_pos (by simpa using reserved), contents]
        exact scans
      · rw [free reserved] at scans
        rw [calledAs_of_free token text reserved]
        exact scans
    | special c _ _ head sign _ _ _ => exact (worded.head_not_sign c head sign).elim
  | special c name whole sign filled parts ends kind contents =>
    cases respelled with
    | words _ _ other _ _ => exact (other.head_not_sign c (by simp [whole]) sign).elim
    | special c name whole head sign filled parts same =>
      rw [calledAs_of_free token text (by simp [kind]), kind]
      exact ⟨c, name, { kind := .identifier, more := name.length }, whole,
        scan?_of_marked _ _ _ _ _ (marked?_name c name suffix sign filled parts joint), rfl, rfl,
        rfl⟩

/-- A token that is neither blank nor a comment is scanned again as it was, in each of its
spellings, whatever text it precedes. -/
theorem ScannedFrom.again {registry : Registry} {last : Option Token} {token : Token}
    {behind suffix : List Char} (scanned : ScannedFrom registry last token behind)
    (precedes : Precedes token behind suffix) (visible : token.kind ≠ .blank)
    (code : token.kind ≠ .comment) (spells : registry.compounds.spells [] = true)
    (ascii : IsAscii token.text.toList) (text : String) (spelling : Spelling token text)
    (last' : Option Token) (operand : last'.any isOperand = last.any isOperand) :
    ScansAs registry last' text suffix token.kind (token.calledAs text) := by
  by_cases wordLike : token.kind.isWordLike = true
  · have read := scanned.readFrom.wordRead wordLike
    obtain ⟨small, respelled⟩ := read.respelled wordLike spells ascii text spelling
    refine respelled.scansAs small read spells (precedes.words wordLike) ?_ last'
    refine precedes.joint ?_ ?_ <;> cases kind : token.kind <;>
      simp [kind, Kind.isWordLike, Kind.isPunctuation] at wordLike ⊢
  have plain : token.kind.isWordLike = false := by simpa using wordLike
  have free : token.kind ≠ .reservedWord := by
    intro kind
    simp [kind, Kind.isWordLike] at plain
  rw [Spelling, if_neg wordLike] at spelling
  have contents : token.contents = token.text :=
    scanned.readFrom.contents_eq_text (by simp [isReserved, free])
  rw [spelling, calledAs_of_free token _ free, ← contents]
  conv => enter [3]; rw [contents]
  by_cases number : token.kind = .numberLiteral
  · exact scanned.number precedes number last' operand
  by_cases operator : token.kind = .operator
  · exact scanned.operator precedes operator last'
  · exact scanned.literal precedes visible code number plain operator last'

end SqlLayout.Token
