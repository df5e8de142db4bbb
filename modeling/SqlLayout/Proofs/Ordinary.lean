import SqlLayout.Proofs.Relexing
import SqlLayout.Proofs.Rereading

/-! Regular sources, in which every operator has its operands around it, no bracket is an
operator and all letters are ASCII; without comments they are ordinary. What a formatter makes
of such a source, if no comment goes behind a comma, is read as the tokens of the source again,
in other blanks and in another case. The only tokens that are missing are the semicolons of
empty statements. -/
namespace SqlLayout

open Keyword Layout SqlLayout.Tree

namespace Token

theorem kind_face (token : Token) : token.face.kind = token.kind := by
  unfold face
  split
  · rename_i isComma
    exact isComma.symm
  · rfl

theorem eq_or_comma_of_face {first second : Token} (same : first.face = second.face) :
    first = second ∨ first.kind = .comma ∧ second.kind = .comma := by
  have kinds : first.kind = second.kind := by rw [← kind_face first, same, kind_face]
  by_cases isComma : first.kind = .comma
  · exact .inr ⟨isComma, kinds ▸ isComma⟩
  · rw [face, face, if_neg isComma, if_neg (kinds ▸ isComma)] at same
    exact .inl same

end Token

namespace Layout

theorem isUnary_of_face {first second : Token} {before after : Option Token}
    (same : first.face = second.face) (last : before.map Token.face = after.map Token.face) :
    Sheet.isUnary first before = Sheet.isUnary second after := by
  have place : Sheet.isUnaryPlace before = Sheet.isUnaryPlace after := by
    cases before with
    | none =>
      have nothing : after = none := by simpa using last.symm
      rw [nothing]
    | some token =>
      obtain ⟨other, rfl, sameLast⟩ := Option.map_eq_some_iff.1 last.symm
      rcases Token.eq_or_comma_of_face sameLast with rfl | ⟨comma, comma'⟩
      · rfl
      · simp [Sheet.isUnaryPlace, comma, comma']
  rcases Token.eq_or_comma_of_face same with rfl | ⟨comma, comma'⟩
  · rw [Sheet.isUnary, Sheet.isUnary, place]
  · rw [isUnary_of_kind first before (by simp [comma]), isUnary_of_kind second after
      (by simp [comma'])]

theorem endsUnary_of_face {first second : List Token}
    (same : first.map Token.face = second.map Token.face) : endsUnary first = endsUnary second := by
  rcases List.eq_nil_or_concat first with rfl | ⟨front, last, rfl⟩
  · rw [List.map_eq_nil_iff.1 same.symm]
  rw [List.concat_eq_append, List.map_append] at same
  obtain ⟨front', tail, rfl, sameFront, sameTail⟩ := List.map_eq_append_iff.1 same.symm
  obtain ⟨last', rfl, sameLast⟩ := List.map_eq_singleton_iff.1 sameTail
  rw [List.concat_eq_append, endsUnary_snoc, endsUnary_snoc]
  refine isUnary_of_face sameLast.symm ?_
  rw [← List.getLast?_map, ← List.getLast?_map, sameFront]

theorem MayTouch.of_face {sheet : Sheet} {before before' : List Token} {token token' : Token}
    (touch : MayTouch sheet before token)
    (same : before'.map Token.face = before.map Token.face)
    (sameToken : token'.face = token.face) : MayTouch sheet before' token' := by
  have kinds {first second : Token} (same : first.face = second.face) :
      first.kind = second.kind := by
    rw [← Token.kind_face first, same, Token.kind_face]
  rcases touch with punctuation | ⟨last, final, allowed⟩
  · exact .inl (kinds sameToken ▸ punctuation)
  have final' := congrArg (Option.map Token.face) final
  rw [← List.getLast?_map, ← same, List.getLast?_map] at final'
  obtain ⟨last', final', sameLast⟩ := Option.map_eq_some_iff.1 final'
  refine .inr ⟨last', final', ?_⟩
  have sameKind := kinds sameLast
  rcases allowed with opening | comma | unary | after | glued
  · exact .inl (sameKind.trans opening)
  · exact .inr (.inl (sameKind.trans comma))
  · exact .inr (.inr (.inl (endsUnary_of_face same ▸ unary)))
  · refine .inr (.inr (.inr (.inl ?_)))
    rcases Token.eq_or_comma_of_face sameLast with rfl | ⟨-, comma⟩
    · exact after
    · simp [Sheet.gluesAfter, comma] at after
  · refine .inr (.inr (.inr (.inr ?_)))
    rcases Token.eq_or_comma_of_face sameToken with rfl | ⟨-, comma⟩
    · rw [Sheet.gluesBefore, sameKind]
      exact glued
    · simp [Sheet.gluesBefore, comma] at glued

theorem endsLine_of_face {first second : List Token}
    (same : first.map Token.face = second.map Token.face) : endsLine first = endsLine second := by
  have last := congrArg List.getLast? same
  rw [List.getLast?_map, List.getLast?_map] at last
  rw [endsLine, endsLine]
  cases final : second.getLast? with
  | none =>
    rw [final, Option.map_none, Option.map_eq_none_iff] at last
    rw [last]
  | some token =>
    rw [final, Option.map_some, Option.map_eq_some_iff] at last
    obtain ⟨other, found, same⟩ := last
    rw [found]
    rcases Token.eq_or_comma_of_face same with rfl | ⟨comma, comma'⟩
    · rfl
    · simp [isLineComment_of_kind, comma, comma']

theorem Laid.of_face {sheet : Sheet} {shown : List Token} {chars : List Char}
    (laid : Laid sheet shown chars) (written : List Token)
    (same : written.map Token.face = shown.map Token.face)
    (commas : ∀ token ∈ shown, token.kind = .comma → token.text = ",")
    (others : ∀ token ∈ written, token.kind = .comma → token.text = ",") :
    Laid sheet written chars := by
  induction laid generalizing written with
  | nil =>
    rw [List.map_nil, List.map_eq_nil_iff] at same
    rw [same]
    exact .nil
  | @snoc tokens chars front gap token text blank atStart spelling filled apart breaks ih =>
    rw [List.map_append, List.map_eq_append_iff] at same
    obtain ⟨before, final, rfl, sameBefore, sameLast⟩ := same
    rw [List.map_cons, List.map_nil, List.map_eq_singleton_iff] at sameLast
    obtain ⟨last, rfl, sameLast⟩ := sameLast
    have nil_iff : before = [] ↔ tokens = [] := by
      rw [← List.map_eq_nil_iff (f := Token.face), sameBefore, List.map_eq_nil_iff]
    have onward := ih before sameBefore
      (fun other member => commas other (List.mem_append_left _ member))
      (fun other member => others other (List.mem_append_left _ member))
    refine .snoc onward gap last text blank (fun nothing => atStart (nil_iff.1 nothing)) ?_ filled
      (fun some tight => ?_) fun ends => breaks (endsLine_of_face sameBefore ▸ ends)
    · exact Token.spelling_of_face token last sameLast.symm (commas token (by simp))
        (others last (by simp)) text spelling
    · exact (apart (fun nothing => some (nil_iff.2 nothing)) tight).of_face sameBefore sameLast

end Layout

namespace Token

theorem isUnaryPlace_of_isOperand (token : Token) (operand : token.isOperand = true) :
    Sheet.isUnaryPlace (some token) = false := by
  by_cases reserved : token.kind = .reservedWord
  · have keyword : operandWords.contains token.contents = true := by
      simpa [isOperand, isKeyword, isReserved, reserved, Kind.isOperand] using operand
    simp only [Sheet.isUnaryPlace, isComment, reserved, keyword]
    simp
  · have kind : token.kind.isOperand = true := by
      simpa [isOperand, isKeyword, isReserved, reserved] using operand
    cases named : token.kind <;>
      simp [named, Kind.isOperand, Sheet.isUnaryPlace, isComment, isReserved] at kind reserved ⊢

theorem isUnary_of_no_sign (token : Token) (before : Option Token)
    (other : token.kind = .operator → token.text ∉ ["+", "-", "~"]) :
    Sheet.isUnary token before = false := by
  by_cases kind : token.kind = .operator
  · have apart := other kind
    simp only [List.mem_cons, List.not_mem_nil, or_false, not_or] at apart
    simp [Sheet.isUnary, apart]
  · exact isUnary_of_kind token before kind

theorem isUnary_of_ordinary (before : Option Token) (token : Token) (after : Option Token)
    (ordinary : isOrdinaryBetween before token after = true) :
    Sheet.isUnary token before = false := by
  by_cases operand : before.any isOperand = true
  · obtain ⟨last, rfl, operand⟩ := (Option.any_eq_true _ _).1 operand
    simp [Sheet.isUnary, isUnaryPlace_of_isOperand last operand]
  · refine isUnary_of_no_sign token before fun kind sign => operand ?_
    exact (ordinaryOperator before token after kind ordinary).sign sign

theorem isOrdinary_append (before : Option Token) (front back : List Token) :
    isOrdinary before (front ++ back) = true → isOrdinary (front.getLast?.or before) back = true := by
  induction front generalizing before with
  | nil => simp
  | cons token rest ih =>
    intro ordinary
    rw [List.cons_append, isOrdinary, Bool.and_eq_true] at ordinary
    have onward := ih (some token) ordinary.2
    rw [List.getLast?_cons]
    cases last : rest.getLast? <;> simpa [last] using onward

/-- Where a token of a source without signs out of place stands, it is no sign with one
operand. -/
theorem isOrdinaryBetween_of_split (before : Option Token) (front : List Token) (token : Token)
    (back : List Token) (ordinary : isOrdinary before (front ++ token :: back) = true) :
    isOrdinaryBetween (front.getLast?.or before) token back.head? = true := by
  have behind := isOrdinary_append before front _ ordinary
  rw [isOrdinary, Bool.and_eq_true] at behind
  exact behind.1

structure IsCalm (statement : List Token) : Prop where
  unary : ∀ front token back, statement = front ++ token :: back →
    Sheet.isUnary token front.getLast? = false
  bracket : ∀ token ∈ statement, token.kind = .operator →
    token.text ∉ ["[", "]", "\x7b", "\x7d"]

theorem calm_of_ordinary (tokens statement : List Token)
    (member : statement ∈ splitStatements tokens)
    (ordinary : isOrdinary none (visible tokens) = true) : IsCalm (visible statement) := by
  obtain ⟨front, back, rfl, ends, -⟩ := exists_around tokens statement member
  rw [visible_append, visible_append] at ordinary
  -- The token before is the one in the source, or a semicolon.
  have around (before : List Token) (token : Token) (after : List Token)
      (whole : visible statement = before ++ token :: after) :
      ∃ last, isOrdinaryBetween (before.getLast?.or last) token
          (after ++ visible back).head? = true ∧
        ∀ semicolon, last = some semicolon → semicolon.kind = .semicolon := by
    refine ⟨(visible front).getLast?, ?_, ?_⟩
    · rw [whole, List.append_assoc, List.append_assoc, ← List.append_assoc] at ordinary
      have between := isOrdinaryBetween_of_split none _ token _ ordinary
      rw [List.getLast?_append] at between
      simpa using between
    · intro semicolon final
      rcases List.eq_nil_or_concat front with rfl | ⟨others, last, rfl⟩
      · simp [visible] at final
      · rw [List.concat_eq_append] at ends final
        have kind := ends last (by simp)
        have kept : visible [last] = [last] := by simp [visible, isBlank, kind]
        rw [visible_append, kept, List.getLast?_append] at final
        obtain rfl : last = semicolon := by simpa using final
        exact kind
  constructor
  · intro before token after whole
    obtain ⟨last, between, semicolon⟩ := around before token after whole
    cases final : before.getLast? with
    | some other => simpa [final] using isUnary_of_ordinary _ token _ between
    | none =>
      rw [final, Option.none_or] at between
      refine isUnary_of_no_sign token none fun kind sign => ?_
      have operand := (ordinaryOperator _ token _ kind between).sign sign
      obtain ⟨other, rfl, operand⟩ := (Option.any_eq_true _ _).1 operand
      simp [isOperand_of_semicolon other (semicolon other rfl)] at operand
  · intro token inside kind
    obtain ⟨before, after, whole⟩ := List.append_of_mem inside
    obtain ⟨last, between, -⟩ := around before token after whole
    exact (ordinaryOperator _ token _ kind between).bracket

/-- No line comment stands in front of a comma, behind which it would go. -/
def CommentsStay (tokens : List Token) : Prop :=
  (visible tokens).IsChain fun first second =>
    first.isLineComment = true → second.kind ≠ .comma

instance (tokens : List Token) : Decidable (CommentsStay tokens) :=
  inferInstanceAs (Decidable ((visible tokens).IsChain _))

theorem commentsStay_of_code {tokens : List Token}
    (code : ∀ token ∈ tokens, token.isComment = false) : CommentsStay tokens := by
  refine List.isChain_iff_forall_rel_of_append_cons_cons.2 ?_
  intro first second front back whole isLine
  have inside : first ∈ visible tokens := by simp [whole]
  simp [isLineComment, code first (List.mem_filter.1 inside).1] at isLine

theorem CommentsStay.part {tokens statement : List Token} (stay : CommentsStay tokens)
    (member : statement ∈ splitStatements tokens) : CommentsStay statement := by
  obtain ⟨front, back, rfl, -, -⟩ := exists_around tokens statement member
  rw [CommentsStay, visible_append, visible_append] at stay
  exact stay.left_of_append.right_of_append

def hasSubstance (statement : List Token) : Bool :=
  statement.any fun token => !token.isBlank && token.kind ≠ .semicolon

/-- The tokens that are not blank, but for the semicolons of statements that contain nothing
else. -/
def substance (tokens : List Token) : List Token :=
  visible ((splitStatements tokens).filter hasSubstance).flatten

theorem mem_of_mem_substance (tokens : List Token) (token : Token)
    (member : token ∈ substance tokens) : token ∈ tokens := by
  obtain ⟨statement, kept, inside⟩ := List.mem_flatten.1 (List.mem_filter.1 member).1
  exact List.mem_flatten.2 ⟨statement, (List.mem_filter.1 kept).1, inside⟩ |>
    (flatten_splitStatements tokens ▸ ·)

/-- Tokens without the semicolons at the start and behind other semicolons. -/
def withoutEmpty : Bool → List Token → List Token
  | _, [] => []
  | fresh, token :: rest =>
    if fresh && token.kind = .semicolon then withoutEmpty true rest
    else token :: withoutEmpty (token.kind = .semicolon) rest

theorem withoutEmpty_visible (tokens : List Token) :
    withoutEmpty false (visible tokens) =
        visible ((splitStatements tokens).headD [] ++
          ((splitStatements tokens).tail.filter hasSubstance).flatten) ∧
      withoutEmpty true (visible tokens) = substance tokens := by
  induction tokens with
  | nil => exact ⟨rfl, rfl⟩
  | cons token rest ih =>
    obtain ⟨within, start⟩ := ih
    by_cases ends : token.kind = .semicolon
    · have kept (others : List Token) : visible (token :: others) = token :: visible others := by
        simp [visible, isBlank, ends]
      have split : splitStatements (token :: rest) = [token] :: splitStatements rest := by
        rw [splitStatements, if_pos ends]
      have empty : hasSubstance [token] = false := by simp [hasSubstance, ends]
      rw [kept, substance, split]
      constructor
      · simp [withoutEmpty, ends, start, substance, kept]
      · simp [withoutEmpty, ends, start, substance, empty]
    · rw [substance, splitStatements_cons token rest ends]
      by_cases blank : token.isBlank = true
      · have kept (others : List Token) : visible (token :: others) = visible others := by
          simp [visible, blank]
        have same (others : List Token) : hasSubstance (token :: others) = hasSubstance others := by
          simp [hasSubstance, blank]
        rw [kept, within, start, substance]
        constructor
        · simp [kept]
        · cases splitStatements rest with
          | nil =>
            have empty : hasSubstance [token] = false := same []
            simp [empty]
          | cons first others =>
            by_cases full : hasSubstance first = true
            · simp [same, full, kept]
            · simp [same, full]
      · have kept (others : List Token) : visible (token :: others) = token :: visible others := by
          simp [visible, blank]
        have full (others : List Token) : hasSubstance (token :: others) = true := by
          simp [hasSubstance, blank, ends]
        rw [kept]
        constructor
        · simp [withoutEmpty, ends, within, kept]
        · simp [withoutEmpty, ends, within, kept, full]

theorem echo_of_withoutEmpty (fresh : Bool) (source written : List Placement)
    (same : written.map Placement.token =
      withoutEmpty fresh (source.map Placement.token)) : Echo fresh source written := by
  induction source generalizing fresh written with
  | nil =>
    rw [List.map_eq_nil_iff.1 same]
    exact .nil fresh
  | cons placement rest ih =>
    rw [List.map_cons, withoutEmpty] at same
    split at same
    · rename_i skips
      simp only [Bool.and_eq_true, decide_eq_true_eq] at skips
      obtain ⟨rfl, ends⟩ := skips
      exact .skip ends (ih true written same)
    · obtain ⟨again, others, rfl, here, later⟩ := List.map_eq_cons_iff.1 same
      exact .cons here (ih _ others later)

end Token

namespace Layout.Placement

theorem InRow.adjoins {sheet : Sheet} {tokens : List Token} {placements : List Placement}
    (inRow : InRow sheet tokens placements) (separator : sheet.style.catalogSeparator = '.')
    (calm : Token.IsCalm tokens) :
    placements.IsChain fun first second =>
      second.gap = [] → Token.MayAdjoin first.token second.token := by
  refine List.isChain_iff_forall_rel_of_append_cons_cons.2 ?_
  intro first second front back whole noGap
  have split : tokens = front.map token ++ first.token :: second.token :: back.map token := by
    rw [← inRow.tokens, whole, List.map_append, List.map_cons, List.map_cons]
  have bracket (token : Token) (inside : token = first.token ∨ token = second.token)
      (kind : token.kind = .operator) : token.text ∉ ["[", "]", "\x7b", "\x7d"] := by
    refine calm.bracket token ?_ kind
    rcases inside with rfl | rfl <;> simp [split]
  rcases inRow.mayTouch front first second back whole noGap with mark | ⟨last, final, allowed⟩
  · exact .inl mark
  have same : first.token = last := by simpa using final
  subst same
  rw [endsUnary_snoc, calm.unary _ _ _ split] at allowed
  rcases allowed with opening | comma | unary | after | before
  · exact .inr (.inl opening)
  · exact .inr (.inr (.inl comma))
  · simp at unary
  · simp only [Sheet.gluesAfter, Sheet.isSeparator, separator, Bool.and_eq_true, Bool.or_eq_true,
      decide_eq_true_eq] at after
    have apart := bracket first.token (.inl rfl) after.1
    refine .inr (.inr (.inr (.inl ⟨after.1, ?_⟩)))
    rcases after.2 with (point | point) | member
    · exact .inl point
    · exact .inl point
    · simp only [List.contains_iff_mem, List.mem_cons, List.not_mem_nil, or_false] at member apart
      tauto
  · obtain ⟨kind, member⟩ := joins_of_gluesBefore separator _ _ before
    have apart := bracket second.token (.inr rfl) kind
    refine .inr (.inr (.inr (.inr ⟨kind, ?_⟩)))
    simp only [joinTexts, List.mem_cons, List.not_mem_nil, or_false] at member apart
    tauto

end Layout.Placement

namespace Formatter

/-- The layout of a statement shows all its tokens. -/
def IsComplete (formatter : Formatter) (statement : List Token) : Prop :=
  (formatter.tree statement).trace.marks.length = (Tree.countedTokens statement).length

section Ordinary

variable {formatter : Formatter} {source : String} {tokens statement : List Token}

theorem Reads.faces_of_complete (reads : Reads formatter source tokens statement)
    (complete : formatter.IsComplete statement) (stay : Token.CommentsStay statement) :
    (Token.visible statement).map Token.face = (formatter.shown statement).map Token.face := by
  obtain ⟨written, moved, same⟩ := reads.exists_displaced complete
  rw [Token.CommentsStay, Token.visible, ← countedTokens_append tokens statement reads.member]
    at stay
  rw [Token.visible, ← countedTokens_append tokens statement reads.member, shown, List.map_append,
    List.map_append, ← same, moved.eq_of_apart stay.left_of_append]

theorem Reads.exists_row (reads : Reads formatter source tokens statement)
    (unnamed : formatter.style.addColumnNameComments = false)
    (complete : formatter.IsComplete statement) (stay : Token.CommentsStay statement)
    (full : Token.hasSubstance statement = true) (lineStarts : List Nat) :
    ∃ placements, Placement.InRow ⟨formatter.style, formatter.registry, formatter.width, lineStarts⟩
        (Token.visible statement) placements ∧
      Placement.row placements = (formatter.formatStatement lineStarts statement).toList := by
  refine Placement.exists_row ?_
  refine (reads.laid unnamed lineStarts ?_).of_face _ (reads.faces_of_complete complete stay)
    reads.comma_shown fun token member => ?_
  · simpa [Token.hasSubstance] using full
  · exact reads.text_of_comma token (List.mem_filter.1 member).1

theorem written_eq (reads : ReadsText formatter source tokens)
    (unnamed : formatter.style.addColumnNameComments = false)
    (complete : ∀ statement ∈ Token.splitStatements tokens, formatter.IsComplete statement)
    (stay : Token.CommentsStay tokens) :
    formatter.written tokens = (Token.splitStatements tokens).filter Token.hasSubstance := by
  refine List.filter_congr fun statement member => ?_
  by_cases full : Token.hasSubstance statement = true
  · obtain ⟨placements, inRow, text⟩ := (reads.part member).exists_row unnamed
      (complete statement member) (stay.part member) full (commentLineStarts none tokens)
    rw [full, decide_eq_true]
    intro empty
    obtain ⟨token, here, solid⟩ := List.any_eq_true.1 full
    have kept : token ∈ Token.visible statement := by
      simp only [Bool.and_eq_true] at solid
      exact List.mem_filter.2 ⟨here, solid.1⟩
    rw [← inRow.tokens] at kept
    obtain ⟨placement, inPlace, -⟩ := List.mem_map.1 kept
    obtain ⟨front, back, rfl⟩ := List.append_of_mem inPlace
    rw [empty, Placement.row_append, Placement.row_cons] at text
    have filled := (inRow.sound placement (by simp)).filled
    simp [filled] at text
  · rw [Bool.not_eq_true] at full
    rw [full, decide_eq_false]
    simp only [Token.hasSubstance, List.any_eq_false, Bool.and_eq_true, Bool.not_eq_true',
      decide_eq_true_eq, not_and, ne_eq, not_not] at full
    simp only [formatStatement, not_not]
    rw [if_pos]
    simp only [List.all_eq_true, Bool.or_eq_true, decide_eq_true_eq]
    intro token here
    by_cases blank : token.isBlank = true
    · exact .inl blank
    · exact .inr (full token here (by simpa using blank))

/-- A source in ASCII, whose operators have their operands around them. -/
structure IsRegular (source : String) (tokens : List Token) : Prop where
  ascii : Text.IsAscii source.toList
  operators : Token.isOrdinary none (Token.visible tokens) = true

/-- A regular source without comments. -/
structure IsOrdinary (source : String) (tokens : List Token) : Prop
    extends IsRegular source tokens where
  code : ∀ token ∈ tokens, token.isComment = false

theorem IsRegular.ascii_text {registry : Registry} (plain : IsRegular source tokens)
    (lexed : Token.tokens? registry source = .ok tokens) (token : Token)
    (member : token ∈ tokens) : Text.IsAscii token.text.toList := by
  have joined := (Token.tiles_of_tokens? registry source tokens lexed).joined
  intro c inside
  exact plain.ascii c (joined ▸ List.mem_flatMap.2 ⟨token, member, inside⟩)

theorem exists_calm_row (reads : ReadsText formatter source tokens)
    (plain : IsRegular source tokens) (stay : Token.CommentsStay tokens)
    (unnamed : formatter.style.addColumnNameComments = false)
    (separator : formatter.style.catalogSeparator = '.')
    (complete : ∀ statement ∈ Token.splitStatements tokens, formatter.IsComplete statement) :
    ∃ placements, Placement.row placements = (formatter.formatTokens tokens).toList ∧
      placements.map Placement.token = Token.substance tokens ∧
      (∀ placement ∈ placements, placement.Sound) ∧
      (placements.IsChain fun first second =>
        second.gap = [] → Token.MayAdjoin first.token second.token) ∧
      placements.IsChain Placement.Parts := by
  have written := written_eq reads unnamed complete stay
  let sheet : Sheet :=
    ⟨formatter.style, formatter.registry, formatter.width, commentLineStarts none tokens⟩
  have each : ∀ statement, ∃ placements, statement ∈ formatter.written tokens →
      Placement.InRow sheet (Token.visible statement) placements ∧
        Placement.row placements =
          (formatter.formatStatement (commentLineStarts none tokens) statement).toList := by
    intro statement
    by_cases isWritten : statement ∈ formatter.written tokens
    · rw [written] at isWritten
      obtain ⟨member, full⟩ := List.mem_filter.1 isWritten
      obtain ⟨placements, row⟩ := (reads.part member).exists_row unnamed
        (complete statement member) (stay.part member) full (commentLineStarts none tokens)
      exact ⟨placements, fun _ => row⟩
    · exact ⟨[], fun inside => absurd inside isWritten⟩
  obtain ⟨places, rows⟩ := Classical.skolem.1 each
  refine ⟨formatter.lines tokens places,
    row_lines_of_texts fun statement member => (rows statement member).2, ?_, ?_, ?_, ?_⟩
  · rw [lines, Placement.map_token_lines, List.map_map]
    have tokensOf : (formatter.written tokens).map (List.map Placement.token ∘ places) =
        (formatter.written tokens).map Token.visible :=
      List.map_congr_left fun statement member => (rows statement member).1.tokens
    rw [tokensOf, written, Token.substance]
    exact (List.filter_flatten ..).symm
  · refine Placement.sound_lines _ fun placements member => ?_
    obtain ⟨statement, isWritten, rfl⟩ := List.mem_map.1 member
    exact (rows statement isWritten).1.sound
  · refine (Placement.isChain_lines _ _ (fun _ _ _ => Iff.rfl) ?_).2 fun placements member => ?_
    · intro first second gap noGap
      simp [noGap] at gap
    · obtain ⟨statement, isWritten, rfl⟩ := List.mem_map.1 member
      refine (rows statement isWritten).1.adjoins separator ?_
      exact Token.calm_of_ordinary tokens statement (List.mem_filter.1 isWritten).1 plain.operators
  · refine (Placement.isChain_lines _ _ (fun _ _ _ => Iff.rfl) ?_).2 fun placements member => ?_
    · exact fun first second breaks _ => breaks
    · obtain ⟨statement, isWritten, rfl⟩ := List.mem_map.1 member
      exact (rows statement isWritten).1.parts

/-- With all its tokens shown, this row is read again. -/
theorem exists_rereading (reads : ReadsText formatter source tokens)
    (plain : IsRegular source tokens) (stay : Token.CommentsStay tokens)
    (unnamed : formatter.style.addColumnNameComments = false)
    (separator : formatter.style.catalogSeparator = '.')
    (complete : ∀ statement ∈ Token.splitStatements tokens, formatter.IsComplete statement) :
    ∃ placements, Placement.row placements = (formatter.formatTokens tokens).toList ∧
      placements.map Placement.token = Token.substance tokens ∧
      (∀ placement ∈ placements, placement.Sound) ∧
      Token.Rereads formatter.registry none placements := by
  obtain ⟨finished, same⟩ := (Token.tokens?_eq_ok_iff _ source tokens).1 reads.lexed
  obtain ⟨places, trailing, scanned, placed, -⟩ := Token.Cursor.exists_scanned formatter.registry
    (Token.Cursor.ofSource source) [] (by simp) finished
  have visible : places.map Placement.token = Token.visible tokens := by
    rw [placed, ← same]
    rfl
  obtain ⟨placements, row, shown, sound, adjoins, parts⟩ :=
    exists_calm_row reads plain stay unnamed separator complete
  refine ⟨placements, row, shown, sound, ?_⟩
  have echo := Token.echo_of_withoutEmpty true places placements (by
    rw [shown, visible, (Token.withoutEmpty_visible tokens).2])
  refine echo.rereads (Registry.spells_of_common reads.phrases) none none none
    ⟨scanned, visible ▸ plain.operators, ?_, sound, adjoins, parts⟩ (fun _ => rfl) rfl
  intro placement member
  have inSource : placement.token ∈ Token.visible tokens := by
    rw [← visible]
    exact List.mem_map_of_mem member
  exact plain.ascii_text reads.lexed _ (List.mem_filter.1 inSource).1

end Ordinary

end Formatter

namespace Token

structure Resembles (token again : Token) : Prop where
  kind : again.kind = token.kind
  text : token.kind.isWordLike = false → again.text = token.text
  letters : Text.upper (Text.collapse again.text) = Text.upper (Text.collapse token.text)
  contents : token.isReserved = true → again.contents = token.contents

theorem ReadAs.resembles {registry : Registry} {placement : Placement} {again : Token}
    {behind : List Char} (readAs : ReadAs placement again) (sound : placement.Sound)
    (read : ReadFrom registry placement.token behind)
    (spells : registry.compounds.spells [] = true)
    (ascii : Text.IsAscii placement.token.text.toList) : Resembles placement.token again := by
  have plain (free : placement.token.kind.isWordLike = false) :
      again.text = placement.token.text := by
    have spelling := sound.spelling
    rw [Spelling, if_neg (by simp [free])] at spelling
    rw [readAs.text, spelling]
  refine ⟨readAs.kind, plain, ?_, fun reserved => ?_⟩
  · by_cases wordLike : placement.token.kind.isWordLike = true
    · obtain ⟨-, respelled⟩ := (read.wordRead wordLike).respelled wordLike spells ascii
        placement.text sound.spelling
      rw [readAs.text]
      exact respelled.letters
    · rw [plain (by simpa using wordLike)]
  · rw [readAs.contents, calledAs, if_pos reserved]

end Token

namespace Formatter

/-- What a formatter makes of an ordinary source is read as the tokens of the source again,
one by one: each has its kind, its text if it is no word, its letters but for their case if
it is one, and its contents if it is reserved. Only the semicolons of statements that contain
nothing else are missing. This holds for all words, for all widths and
for all styles that separate names by points and do not name columns, where neither an
INSERT nor a named query occurs. -/
theorem relexed_ordinary (formatter : Formatter)
    (phrases : formatter.registry.compounds = commonPhrases) (source : String)
    (tokens : List Token) (lexed : Token.tokens? formatter.registry source = .ok tokens)
    (plain : IsOrdinary source tokens)
    (forms : ∀ statement ∈ Token.splitStatements tokens, ∀ form ∈ formatter.forms statement,
      form.isInsert = false ∧ form.isWith = false)
    (unnamed : formatter.style.addColumnNameComments = false)
    (separator : formatter.style.catalogSeparator = '.') :
    ∃ text relexed, formatter.format source = .ok text ∧
      Token.tokens? formatter.registry text = .ok relexed ∧
      List.Forall₂ Token.Resembles (Token.substance tokens) (Token.visible relexed) := by
  have reads : ReadsText formatter source tokens := ⟨phrases, lexed⟩
  have spells := Registry.spells_of_common phrases
  have complete : ∀ statement ∈ Token.splitStatements tokens, formatter.IsComplete statement :=
    fun statement member => (reads.part member).length_marks_iff.2 fun form inside => by
      rw [form.keepsAll_of_not_with (forms statement member form inside).2,
        form.keepsTail_of_not_insert (forms statement member form inside).1]
  obtain ⟨placements, row, shown, sound, rereads⟩ :=
    exists_rereading reads plain.toIsRegular (Token.commentsStay_of_code plain.code) unnamed
      separator complete
  obtain ⟨relexed, notices, stop, finished, run, same⟩ := rereads 0
  rw [row] at run
  refine ⟨formatter.formatTokens tokens, relexed, ?_, ?_, ?_⟩
  · rw [format, reads.lexed]
    rfl
  · exact (Token.tokens?_eq_ok_iff _ _ _).2
      ⟨(congrArg (·.stop.rest) run).trans finished, congrArg (·.tokens) run⟩
  · rw [← shown, List.forall₂_map_left_iff]
    have facts : ∀ placement ∈ placements, ∃ behind, placement.Sound ∧
        Token.ReadFrom formatter.registry placement.token behind ∧
        Text.IsAscii placement.token.text.toList := by
      intro placement member
      have inside : placement.token ∈ Token.substance tokens := by
        rw [← shown]
        exact List.mem_map_of_mem member
      have inSource := Token.mem_of_mem_substance tokens _ inside
      obtain ⟨behind, read⟩ := Token.readFrom_of_mem _ source tokens reads.lexed _ inSource
      exact ⟨behind, sound placement member, read, plain.ascii_text reads.lexed _ inSource⟩
    refine ((List.forall₂_and_left _ _).2 ⟨facts, same⟩).imp ?_
    rintro placement again ⟨⟨behind, placed, read, ascii⟩, readAs⟩
    exact readAs.resembles placed read spells ascii

def castSum : List Token :=
  [.plain .semicolon ";" 0, ⟨.reservedWord, "Select", 1, "SELECT"⟩, .plain .blank " " 7,
    .plain .identifier "a" 8, .plain .operator "." 9, .plain .identifier "b" 10,
    .plain .operator "+" 11, .plain .blank " " 12, .plain .numberLiteral "-1" 13,
    .plain .blank " " 15, .plain .operator "::" 16, .plain .blank " " 18,
    .plain .identifier "int" 19, .plain .blank " " 22,
    ⟨.reservedWord, "group\n by", 23, "GROUP BY"⟩, .plain .blank " " 32,
    .plain .identifier "c" 33, .plain .semicolon ";" 34, .plain .semicolon ";" 35]

theorem relexed_ordinary_cast :
    ∃ relexed, standard.format ";Select a.b+ -1 :: int group\n by c;;" =
        .ok "SELECT a.b + -1::INT\nGROUP BY c;" ∧
      Token.tokens? standard.registry "SELECT a.b + -1::INT\nGROUP BY c;" = .ok relexed ∧
      List.Forall₂ Token.Resembles
        [⟨.reservedWord, "Select", 1, "SELECT"⟩, .plain .identifier "a" 8, .plain .operator "." 9,
          .plain .identifier "b" 10, .plain .operator "+" 11, .plain .numberLiteral "-1" 13,
          .plain .operator "::" 16, .plain .identifier "int" 19,
          ⟨.reservedWord, "group\n by", 23, "GROUP BY"⟩, .plain .identifier "c" 33,
          .plain .semicolon ";" 34]
        (Token.visible relexed) := by
  have lexed := (Token.tokens?_eq_ok_iff (Registry.common {})
    ";Select a.b+ -1 :: int group\n by c;;" castSum).2 (by decide +kernel)
  have text : standard.format ";Select a.b+ -1 :: int group\n by c;;" =
      .ok "SELECT a.b + -1::INT\nGROUP BY c;" := by
    rw [format, show standard.registry = (Registry.common {}) from rfl, lexed]
    exact congrArg Except.ok (by decide +kernel)
  obtain ⟨result, relexed, formatted, again, same⟩ := relexed_ordinary standard rfl _ castSum
    lexed ⟨⟨by simp [Text.IsAscii], by decide +kernel⟩, by decide⟩ (by decide +kernel)
    rfl rfl
  obtain rfl := Except.ok.inj (text.symm.trans formatted)
  exact ⟨relexed, text, again, same⟩

end Formatter

end SqlLayout
