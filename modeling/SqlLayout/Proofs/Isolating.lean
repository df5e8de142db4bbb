import SqlLayout.Proofs.Signing

/-! Tokens read by themselves. Each rule of the scanner looks further than its token goes: for
the partner of a quote, a bracket or a tag, at the words ahead, at the last solid token behind.
Once the token is found, nothing of this is needed to find it again. Its text alone is cut into
that one token; a quote without its partner ends with the text in both cases, and a sign that
belongs to its number had no operand before it, just as at the start of a text. -/
namespace SqlLayout.Token

open Keyword Text

theorem depth_take (phrases : Phrases) (words : List (List Char)) (count : Nat) (phrase : String)
    (found : depth phrases words = some (count, phrase)) :
    depth phrases (words.take count) = some (count, phrase) := by
  induction words generalizing phrases count phrase with
  | nil => simp [depth] at found
  | cons word rest ih =>
    simp only [depth] at found
    split at found
    · simp at found
    rename_i child step
    split at found
    · rename_i more own deeper
      obtain ⟨rfl, rfl⟩ : more + 1 = count ∧ own = phrase := by simpa using found
      rw [List.take_succ_cons, depth, step]
      simp only [ih child more own deeper]
    · obtain ⟨own, ends, same⟩ := Option.map_eq_some_iff.1 found
      obtain ⟨rfl, rfl⟩ : 1 = count ∧ own = phrase := by simpa using same
      rw [List.take_succ_cons, depth, step, List.take_zero]
      simp [depth, ends]

/-- Words are called the same when none are ahead of them. -/
theorem Named.alone {registry : Registry} {words next : List (List Char)} {kind : Kind}
    {contents : Option String} (named : Named registry words next kind contents) :
    Named registry words [] kind contents := by
  obtain ⟨word, others, rfl, called⟩ := named
  refine ⟨word, others, rfl, ?_⟩
  rw [List.append_nil]
  cases found : phraseOf registry word (others ++ next) with
  | some pair =>
    obtain ⟨count, phrase⟩ := pair
    rw [found] at called
    obtain ⟨rfl, called⟩ := called
    obtain ⟨node, step, deeper⟩ := Option.bind_eq_some_iff.1 found
    have front := depth_take node _ _ phrase deeper
    rw [List.take_left] at front
    rw [phraseOf, step, Option.bind_some, front]
    exact ⟨rfl, called⟩
  | none =>
    rw [found] at called
    obtain ⟨rfl, called⟩ := called
    have nothing : phraseOf registry word [] = none := by
      rw [phraseOf]
      cases registry.compounds.step (String.ofList word) <;> rfl
    rw [nothing]
    exact ⟨rfl, called⟩

theorem jointAhead_nil : JointAhead [] := by
  simp [JointAhead]

theorem ahead_nil : ahead [] = [] :=
  ahead_of_tight [] rfl

theorem precedes_nil (token : Token) (behind : List Char)
    (plain : token.kind.isWordLike = false)
    (closed : token.kind = .operator → token.text ≠ "[") : Precedes token behind [] where
  closed _ := rfl
  joint _ _ := jointAhead_nil
  number _ := by simp
  operator kind := by
    by_cases point : token.text = "."
    · exact .inr (.inl ⟨point, by simp⟩)
    · exact .inr (.inr ⟨point, closed kind, by simp [Parted]⟩)
  words wordLike := by simp [plain] at wordLike

theorem spanLength_take (belongs : Char → Bool) (chars : List Char) :
    spanLength belongs (chars.take (spanLength belongs chars)) = spanLength belongs chars := by
  have front := spanLength_front belongs _ [] (belongs_of_mem_span belongs chars) (by simp)
  rwa [List.append_nil, length_take_span] at front

namespace ScannedFrom

variable {registry : Registry} {last : Option Token} {token : Token} {behind : List Char}

theorem void_alone (scanned : ScannedFrom registry last token behind)
    (void : token.kind = .blank ∨ token.kind = .comment) (last' : Option Token) :
    ScansAs registry last' token.text [] token.kind token.contents := by
  rcases void with isBlank | isComment
  · obtain ⟨c, rest, lexeme, step, kind, text, contents, -⟩ := scanned
    refine .of_take last' c rest lexeme step kind text contents (scan?_of_marked _ _ _ _ _ ?_)
    rw [List.append_nil]
    rw [kind] at isBlank
    cases scans_of_scan? registry last c rest lexeme step with
    | blank start => rw [marked?, if_pos start, spanLength_take]
    | _ => grind [lineComment]
  · exact scanned.comment isComment (fun _ => rfl) (by simp) last'

theorem isDigitSign_eq_false (scanned : ScannedFrom registry last token behind)
    (wordLike : token.kind.isWordLike = true) (c : Char)
    (head : token.text.toList.head? = some c) : isDigitSign c = false := by
  obtain ⟨first, rest, lexeme, step, kind, text, -, -⟩ := scanned
  obtain rfl : first = c := by simpa [text] using head
  rw [kind] at wordLike
  cases scans_of_scan? registry last first rest lexeme step with
  | special sign _ => rcases sign with rfl | rfl <;> decide
  | word unmarked _ _ =>
    refine isDigitSign_of_unmarked registry last first rest _ unmarked step fun number => ?_
    simp [number, Kind.isWordLike] at wordLike
  | _ => grind [Kind.isPunctuation, Kind.isWordLike, lineComment]

theorem word_alone (scanned : ScannedFrom registry last token behind)
    (wordLike : token.kind.isWordLike = true) (last' : Option Token) :
    ScansAs registry last' token.text [] token.kind token.contents := by
  cases scanned.readFrom.wordRead wordLike with
  | words words given worded ends named contents free =>
    rw [contents]
    refine worded.scansAs (scanned.isDigitSign_eq_false wordLike) registry last' []
      jointAhead_nil _ _ ?_
    rw [ahead_nil]
    exact named.alone
  | special c name whole sign filled parts ends kind contents =>
    exact ⟨c, name, { kind := .identifier, more := name.length }, whole,
      scan?_of_marked _ _ _ _ _ (marked?_name c name [] sign filled parts jointAhead_nil),
      kind.symm, rfl, contents.symm⟩

theorem number_fresh (scanned : ScannedFrom registry last token behind)
    (kind : token.kind = .numberLiteral) : ScannedFrom registry none token behind := by
  obtain ⟨c, rest, lexeme, step, same, facts⟩ := scanned
  refine ⟨c, rest, lexeme, ?_, same, facts⟩
  rw [kind] at same
  cases scans_of_scan? registry last c rest lexeme step with
  | number unmarked length found => exact scan?_of_number registry none c rest length unmarked found
  | signed unmarked sign length found =>
    -- No operand stood before the sign, and none stands at the start of a text.
    have free := any_isOperand_of_signed registry last c rest _ sign unmarked step rfl
    rw [scan?_last registry last none (by rw [free]; rfl), step]
  | word _ _ given => rcases given with given | given <;> simp [given] at same
  | _ => grind [lineComment]

theorem operator_alone (scanned : ScannedFrom registry last token behind)
    (kind : token.kind = .operator) (last' : Option Token) :
    ScansAs registry last' token.text [] token.kind token.contents := by
  by_cases bracket : token.text = "["
  · have contents := scanned.readFrom.contents_eq_text (by simp [isReserved, kind])
    refine ⟨'[', [], { kind := .operator, more := 0 }, by rw [bracket]; rfl, ?_, kind.symm, rfl,
      contents.symm⟩
    exact scan?_of_marked registry last' '[' [] _ (by rw [marked?_bracket]; rfl)
  · refine scanned.operator (precedes_nil token behind (by rw [kind]; rfl) fun _ => bracket) kind
      last'

/-- What was scanned somewhere is scanned again at the start of a text that ends with it. -/
theorem alone (scanned : ScannedFrom registry last token behind) :
    ScansAs registry none token.text [] token.kind token.contents := by
  by_cases void : token.kind = .blank ∨ token.kind = .comment
  · exact scanned.void_alone void none
  rw [not_or] at void
  by_cases wordLike : token.kind.isWordLike = true
  · exact scanned.word_alone wordLike none
  have plain : token.kind.isWordLike = false := by simpa using wordLike
  by_cases operator : token.kind = .operator
  · exact scanned.operator_alone operator none
  have precedes := precedes_nil token behind plain (absurd · operator)
  by_cases number : token.kind = .numberLiteral
  · exact (scanned.number_fresh number).number precedes number none rfl
  · exact scanned.literal precedes void.1 void.2 number plain operator none

end ScannedFrom

theorem ScansAs.tokens?_eq {registry : Registry} {text : String} {kind : Kind} {contents : String}
    (scans : ScansAs registry none text [] kind contents) :
    tokens? registry text = .ok [⟨kind, text, 0, contents⟩] := by
  obtain ⟨c, rest, lexeme, whole, step, rfl, more, rfl⟩ := scans
  rw [List.append_nil] at step
  have same : String.ofList (c :: rest) = text := by rw [← whole, String.ofList_toList]
  have token : Cursor.tokenOf 0 c rest lexeme =
      ⟨lexeme.kind, text, 0, lexeme.contents.getD text⟩ := by
    rw [Cursor.tokenOf, more, List.take_length, same]
  obtain ⟨notices, read⟩ := Cursor.read_of_scan? registry 0 none c rest lexeme step
  rw [← whole, token] at read
  have left : rest.drop lexeme.more = [] := by rw [more, List.drop_length]
  obtain ⟨tokens, stop⟩ := (Cursor.Passes.token read (.done _)).readAll left
  refine (tokens?_eq_ok_iff registry text _).2 ⟨?_, tokens⟩
  rw [lex, Cursor.ofSource, stop]
  exact left

/-- A token of a text, taken out of it, is read as one token of the same kind, text and contents.
Neither what stood before it nor what stood behind it has made it what it is. -/
theorem tokens?_text (registry : Registry) (source : String) (tokens : List Token)
    (lexed : tokens? registry source = .ok tokens) (token : Token) (member : token ∈ tokens) :
    tokens? registry token.text = .ok [{ token with start := 0 }] := by
  obtain ⟨front, back, rfl⟩ := List.append_of_mem member
  exact (scannedFrom_of_tokens? lexed).alone.tokens?_eq

theorem tokens?_text_phrase :
    tokens? (Registry.common {}) "is not\nnull" =
        .ok [⟨.reservedWord, "is not\nnull", 0, "IS NOT NULL"⟩] ∧
      tokens? (Registry.common {}) "-1" = .ok [.plain .numberLiteral "-1" 0] := by
  have lexed : tokens? (Registry.common {}) "is not\nnull left outer*-1" = .ok
      [⟨.reservedWord, "is not\nnull", 0, "IS NOT NULL"⟩, .plain .blank " " 11,
        ⟨.reservedWord, "left", 12, "LEFT"⟩, .plain .blank " " 16,
        ⟨.reservedWord, "outer", 17, "OUTER"⟩, .plain .operator "*" 22,
        .plain .numberLiteral "-1" 23] :=
    (tokens?_eq_ok_iff _ _ _).2 (by decide +kernel)
  exact ⟨tokens?_text _ _ _ lexed ⟨.reservedWord, "is not\nnull", 0, "IS NOT NULL"⟩ (by decide),
    tokens?_text _ _ _ lexed (.plain .numberLiteral "-1" 23) (by decide)⟩

end SqlLayout.Token
