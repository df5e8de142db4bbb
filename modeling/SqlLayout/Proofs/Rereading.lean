import SqlLayout.Proofs.Parting
import SqlLayout.Proofs.Placing
import SqlLayout.Proofs.Respelling

/-! Rows of tokens read again. A row that repeats the tokens of a text with other blanks
between them is read as these tokens, if whatever stands without a blank between may touch.
The two are gone through side by side: what a token is depends on the last token before it
and on the words ahead, and both agree. -/
namespace SqlLayout.Token

open Keyword Layout Text Placement

structure ReadAs (placement : Placement) (again : Token) : Prop where
  kind : again.kind = placement.token.kind
  text : again.text = placement.text
  contents : again.contents = placement.token.calledAs placement.text

def Rereads (registry : Registry) (last : Option Token) (placements : List Placement) : Prop :=
  ∀ position, ∃ relexed notices stop, stop.rest = [] ∧
    (⟨position, row placements, last⟩ : Cursor).readAll registry = ⟨relexed, notices, stop⟩ ∧
    List.Forall₂ ReadAs placements (relexed.filter (!·.isBlank))

namespace Cursor

theorem read_gap (registry : Registry) (position : Nat) (gap rest : List Char)
    (last : Option Token) (apart : gap ≠ []) (blank : ∀ c ∈ gap, Text.isBlank c = true)
    (visible : ∀ c, rest.head? = some c → Text.isBlank c = false) :
    ∃ token stop, token.isBlank = true ∧
      (⟨position, gap ++ rest, last⟩ : Cursor).read registry =
        .token token [] ⟨stop, rest, last⟩ := by
  obtain ⟨c, others, rfl⟩ := List.exists_cons_of_ne_nil apart
  have span := spanLength_front Text.isBlank others rest
    (fun d member => blank d (List.mem_cons_of_mem _ member)) visible
  have step : scan? registry last c (others ++ rest) =
      some { kind := .blank, more := others.length } := by
    refine scan?_of_marked registry last c _ _ ?_
    rw [marked?, if_pos (blank c (by simp)), span]
  refine ⟨.plain .blank (String.ofList (c :: others)) position, position + others.length + 1, rfl,
    ?_⟩
  simp [read, step, isSolid, isBlank, plain, stop, Nat.add_assoc]
  exact Nat.add_comm 1 others.length

theorem read_of_scansAs (registry : Registry) (position : Nat) (text : String)
    (suffix : List Char) (last : Option Token) (kind : Kind) (contents : String)
    (scans : ScansAs registry last text suffix kind contents) :
    ∃ token notices stop, token.kind = kind ∧ token.text = text ∧ token.contents = contents ∧
      (⟨position, text.toList ++ suffix, last⟩ : Cursor).read registry =
        .token token notices ⟨stop, suffix, if token.isSolid then some token else last⟩ := by
  obtain ⟨c, rest, lexeme, whole, step, rfl, more, called⟩ := scans
  have front : (rest ++ suffix).take lexeme.more = rest := by rw [more, List.take_left]
  have same : String.ofList (c :: rest) = text := by rw [← whole, String.ofList_toList]
  have behind : (rest ++ suffix).drop lexeme.more = suffix := by rw [more, List.drop_left]
  refine ⟨⟨lexeme.kind, text, position, contents⟩,
    lexeme.openQuote.toList.map fun sign => Notice.openQuote sign.1 (position + sign.2),
    position + text.length, rfl, rfl, rfl, ?_⟩
  rw [whole, List.cons_append]
  simp [read, step, front, same, called, behind, isSolid, isBlank, isComment, stop]

end Cursor

theorem ScansAs.visible {registry : Registry} {last : Option Token} {text : String}
    {suffix : List Char} {kind : Kind} {contents : String}
    (scans : ScansAs registry last text suffix kind contents) (solid : kind ≠ .blank)
    (c : Char) (head : (text.toList ++ suffix).head? = some c) : Text.isBlank c = false := by
  obtain ⟨first, rest, lexeme, whole, step, rfl, -⟩ := scans
  rw [whole] at head
  obtain rfl : first = c := by simpa using head
  by_contra blank
  rw [scan?, marked?, if_pos (by simpa using blank)] at step
  exact solid (by rw [← Option.some.inj step])

theorem Rereads.nil (registry : Registry) (last : Option Token) : Rereads registry last [] := by
  intro position
  refine ⟨[], [], ⟨position, [], last⟩, rfl, ?_, .nil⟩
  exact Cursor.readAll_of_atEnd registry _ ((Cursor.read_eq_atEnd_iff registry _).2 rfl)

theorem Rereads.cons {registry : Registry} {last : Option Token} {placement : Placement}
    {rest : List Placement} (sound : placement.Sound)
    (scans : ScansAs registry last placement.text (row rest) placement.token.kind
      (placement.token.calledAs placement.text))
    (visible : placement.token.kind ≠ .blank)
    (onward : ∀ again, ReadAs placement again →
      Rereads registry (if again.isSolid then some again else last) rest) :
    Rereads registry last (placement :: rest) := by
  have direct (position : Nat) : ∃ relexed notices stop, stop.rest = [] ∧
      (⟨position, placement.text.toList ++ row rest, last⟩ : Cursor).readAll registry =
        ⟨relexed, notices, stop⟩ ∧
      List.Forall₂ ReadAs (placement :: rest) (relexed.filter (!·.isBlank)) := by
    obtain ⟨again, notices, stop, kind, text, contents, step⟩ :=
      Cursor.read_of_scansAs registry position _ _ _ _ _ scans
    have readAs : ReadAs placement again := ⟨kind, text, contents⟩
    obtain ⟨relexed, others, final, finished, run, same⟩ := onward again readAs stop
    refine ⟨again :: relexed, notices ++ others, final, finished, ?_, ?_⟩
    · rw [Cursor.readAll_of_token registry _ _ again notices step, run]
    · rw [List.filter_cons_of_pos (by simp [isBlank, kind, visible])]
      exact .cons readAs same
  intro position
  rw [row_cons]
  by_cases tight : placement.gap = []
  · rw [tight]
    exact direct position
  · have blank : ∀ c ∈ placement.gap, Text.isBlank c = true := by
      intro c member
      rcases sound.blank c member with rfl | rfl <;> decide
    obtain ⟨token, stop, isBlank, step⟩ := Cursor.read_gap registry position _ _ last tight blank
      (scans.visible visible)
    obtain ⟨relexed, notices, final, finished, run, same⟩ := direct stop
    refine ⟨token :: relexed, [] ++ notices, final, finished, ?_, ?_⟩
    · rw [Cursor.readAll_of_token registry _ _ token [] step, run]
    · rwa [List.filter_cons_of_neg (by simp [isBlank])]

/-- The tokens of a text in their places, each scanned behind the last one before it that is no
comment. -/
inductive Scanned (registry : Registry) (trailing : List Char) :
    Option Token → List Placement → Prop
  | nil (last : Option Token) (blank : ∀ c ∈ trailing, Text.isBlank c = true) :
      Scanned registry trailing last []
  | cons {last : Option Token} {gap : List Char} {token : Token} {rest : List Placement}
      (blank : ∀ c ∈ gap, Text.isBlank c = true)
      (scanned : ScannedFrom registry last token (row rest ++ trailing))
      (visible : token.kind ≠ .blank)
      (more : Scanned registry trailing (if token.isSolid then some token else last) rest) :
      Scanned registry trailing last (⟨gap, token, token.text⟩ :: rest)

theorem Cursor.scannedFrom_of_read (registry : Registry) (cursor after : Cursor) (token : Token)
    (notices : List Notice) (step : cursor.read registry = .token token notices after) :
    ScannedFrom registry cursor.last token after.rest ∧
      after.last = if token.isSolid then some token else cursor.last := by
  unfold read at step
  cases ahead : cursor.rest with
  | nil => simp [ahead] at step
  | cons c rest =>
    simp only [ahead] at step
    split at step
    · simp at step
    · rename_i lexeme scanned
      simp only [Reading.token.injEq] at step
      obtain ⟨rfl, -, rfl⟩ := step
      exact ⟨⟨c, rest, lexeme, scanned, rfl, String.toList_ofList, rfl, rfl⟩, rfl⟩

/-- Whether a block comment ends, and where, does not depend on what stands behind it. -/
theorem blockComment_take (body : List Char) :
    ∃ more, (blockComment body).more = more + 1 ∧ ∀ suffix, (body.drop more = [] → suffix = []) →
      blockComment (body.take more ++ suffix) = blockComment body := by
  cases ended : Text.findSequence ['*', '/'] body with
  | some place =>
    refine ⟨place + 2, by rw [blockComment, ended], fun suffix _ => ?_⟩
    have again : Text.findSequence ['*', '/'] (body.take (place + 2) ++ suffix) = some place :=
      findSequence_take ['*', '/'] body suffix place (by simp) ended
    rw [blockComment, again, blockComment, ended]
  | none =>
    refine ⟨body.length, by rw [blockComment, ended], fun suffix closed => ?_⟩
    rw [closed List.drop_length, List.take_length, List.append_nil]

/-- A comment is read again if nothing comes behind a block comment that is left open, nor
behind a line comment in its line. -/
theorem ScannedFrom.comment {registry : Registry} {last : Option Token} {token : Token}
    {behind suffix : List Char} (scanned : ScannedFrom registry last token behind)
    (isComment : token.kind = .comment) (closed : behind = [] → suffix = [])
    (parts : token.isLineComment = true → ∀ c, suffix.head? = some c → c = '\n')
    (last' : Option Token) :
    ScansAs registry last' token.text suffix token.kind token.contents := by
  obtain ⟨c, rest, lexeme, step, kind, text, contents, rfl⟩ := scanned
  refine .of_take last' c rest lexeme step kind text contents (scan?_of_marked _ _ _ _ _ ?_)
  rw [kind] at isComment
  cases scans_of_scan? registry last c rest lexeme step with
  | line first second =>
    obtain ⟨tail, rfl⟩ := List.head?_eq_some_iff.1 second
    have blank : Text.isBlank '-' = false := by decide
    obtain ⟨body, front⟩ : ∃ body,
        ('-' :: tail).take (lineComment ('-' :: tail)).more = '-' :: body := by
      rw [lineComment, take_spanLength, List.takeWhile_cons_of_pos (by decide)]
      exact ⟨_, rfl⟩
    have isLine : token.isLineComment = true := by
      rw [Token.isLineComment, Token.isComment, kind, text, front, first]
      rfl
    have span : spanLength (· ≠ '\n') (('-' :: tail).take (lineComment ('-' :: tail)).more ++
        suffix) = (lineComment ('-' :: tail)).more := by
      refine (spanLength_front _ _ suffix (belongs_of_mem_span (· ≠ '\n') ('-' :: tail))
        fun d head => ?_).trans (length_take_more registry last c _ _ step)
      simp [parts isLine d head]
    rw [first, marked?, if_neg (by simp [blank]), if_pos ⟨rfl, by simp [front]⟩]
    conv => lhs; rw [lineComment, span]
    rfl
  | block first second _ =>
    obtain ⟨body, rfl⟩ := List.head?_eq_some_iff.1 second
    have blank : Text.isBlank '/' = false := by decide
    obtain ⟨more, length, again⟩ := blockComment_take body
    simp only [List.drop_succ_cons, List.drop_zero] at closed ⊢
    rw [length, List.drop_succ_cons] at closed
    rw [length, List.take_succ_cons, first, marked?, if_neg (by simp [blank]),
      if_neg (by simp), if_pos ⟨rfl, rfl⟩, List.cons_append, List.drop_succ_cons, List.drop_zero,
      again suffix closed]
  | quoted _ _ given => rcases given with given | given <;> simp [given] at isComment
  | bracket _ given => rcases given with given | given <;> simp [given] at isComment
  | dollar _ _ _ given => rcases given with given | given <;> simp [given] at isComment
  | punctuation mark first => grind
  | word _ _ given => rcases given with given | given <;> simp [given] at isComment
  | operator _ _ given => simp [given] at isComment
  | _ => simp at isComment

theorem ReadFrom.blank {registry : Registry} {token : Token} {behind : List Char}
    (read : ReadFrom registry token behind) (isBlank : token.kind = .blank) (c : Char)
    (member : c ∈ token.text.toList) : Text.isBlank c = true := by
  obtain ⟨first, rest, lexeme, scans, kind, text, -, -⟩ := read
  rw [kind] at isBlank
  rw [text] at member
  cases scans with
  | blank start =>
    rcases List.mem_cons.1 member with rfl | later
    · exact start
    · exact belongs_of_mem_span Text.isBlank rest c later
  | word _ _ given => rcases given with given | given <;> simp [given] at isBlank
  | _ => grind [lineComment]

theorem Cursor.exists_scanned (registry : Registry) (cursor : Cursor) (gap : List Char)
    (blank : ∀ c ∈ gap, Text.isBlank c = true)
    (finished : (cursor.readAll registry).stop.rest = []) :
    ∃ placements trailing, Scanned registry trailing cursor.last placements ∧
      placements.map Placement.token =
        (cursor.readAll registry).tokens.filter (!·.isBlank) ∧
      row placements ++ trailing = gap ++ cursor.rest := by
  cases step : cursor.read registry with
  | atEnd =>
    have nothing := (read_eq_atEnd_iff registry cursor).1 step
    rw [readAll_of_atEnd registry cursor step, nothing]
    exact ⟨[], gap, .nil _ blank, rfl, by simp⟩
  | stray =>
    rw [readAll_of_stray registry cursor step] at finished
    have ended := (read_eq_atEnd_iff registry cursor).2 finished
    simp [ended] at step
  | token token notices after =>
    have shorter := rest_lt_of_read registry cursor after token notices step
    have advance := advances_of_read registry cursor after token notices step
    obtain ⟨scanned, last⟩ := scannedFrom_of_read registry cursor after token notices step
    rw [readAll_of_token registry cursor after token notices step] at finished ⊢
    by_cases isBlank : token.isBlank = true
    · have same : after.last = cursor.last := by simp [last, isSolid, isBlank]
      have wider : ∀ c ∈ gap ++ token.text.toList, Text.isBlank c = true := by
        intro c member
        rcases List.mem_append.1 member with before | here
        · exact blank c before
        · exact scanned.readFrom.blank (by simpa [Token.isBlank] using isBlank) c here
      obtain ⟨placements, trailing, all, tokens, whole⟩ :=
        exists_scanned registry after _ wider finished
      rw [same] at all
      refine ⟨placements, trailing, all, ?_, ?_⟩
      · rw [tokens, List.filter_cons_of_neg (by simp [isBlank])]
      · rw [whole, advance.ahead, List.append_assoc]
    · obtain ⟨placements, trailing, all, tokens, whole⟩ := exists_scanned registry after []
        (by simp) finished
      rw [List.nil_append] at whole
      rw [last] at all
      refine ⟨⟨gap, token, token.text⟩ :: placements, trailing,
        .cons blank (whole ▸ scanned) ?_ all, ?_, ?_⟩
      · simpa [Token.isBlank] using isBlank
      · rw [List.map_cons, tokens, List.filter_cons_of_pos (by simp [isBlank])]
      · rw [row_cons, advance.ahead, List.append_assoc, List.append_assoc, whole]
termination_by cursor.rest.length

theorem ReadFrom.head_of_quoted {registry : Registry} {token : Token} {behind : List Char}
    (read : ReadFrom registry token behind) (kind : token.kind = .quotedIdentifier) (c : Char)
    (head : token.text.toList.head? = some c) : c = '"' ∨ c = '`' ∨ c = '[' := by
  obtain ⟨first, rest, lexeme, scans, same, text, -, -⟩ := read
  rw [text] at head
  obtain rfl : first = c := by simpa using head
  rw [same] at kind
  cases scans with
  | quoted lexeme found _ =>
    unfold quoted? at found
    split at found
    · rw [← Option.some.inj found, kind_of_quotedRun] at kind
      simp at kind
    split at found
    · rw [← Option.some.inj found, kind_of_quotedRun] at kind
      simp at kind
    split at found
    · rw [← Option.some.inj found, kind_of_quotedRun] at kind
      simp at kind
    split at found
    · rename_i isQuote
      exact .inl isQuote
    split at found
    · rename_i isQuote
      exact .inr (.inl isQuote)
    · simp at found
  | bracket isBracket _ => exact .inr (.inr isBracket)
  | dollar _ _ _ given => rcases given with given | given <;> simp [given] at kind
  | word _ _ given => rcases given with given | given <;> simp [given] at kind
  | operator _ _ given => simp [given] at kind
  | _ => grind [lineComment]

def isPart (token : Token) : Bool :=
  token.kind.isName || token.isReserved

/-- An operator stands where it cannot be mistaken: no brackets, signs and casts behind
operands, points and casts between the parts of names. -/
def isOrdinaryBetween (before : Option Token) (token : Token) (after : Option Token) : Bool :=
  token.kind ≠ .operator ||
    (!(["[", "]", "\x7b", "\x7d"].contains token.text) &&
      (!(["+", "-", "~"].contains token.text) || before.any isOperand) &&
      (token.text ≠ "." ||
        before.any (fun token => token.isPart || token.kind = .parenClose) &&
          after.any fun token => token.isPart || (token.kind = .operator && token.text = "*")) &&
      (token.text ≠ "::" || before.any isOperand && after.any isPart))

structure OrdinaryOperator (before : Option Token) (token : Token) (after : Option Token) : Prop
    where
  bracket : token.text ∉ ["[", "]", "\x7b", "\x7d"]
  sign : token.text ∈ ["+", "-", "~"] → before.any isOperand = true
  point : token.text = "." →
    before.any (fun token => token.isPart || token.kind = .parenClose) = true ∧
      after.any (fun token => token.isPart || (token.kind = .operator && token.text = "*")) = true
  cast : token.text = "::" → before.any isOperand = true ∧ after.any isPart = true

theorem ordinaryOperator (before : Option Token) (token : Token) (after : Option Token)
    (kind : token.kind = .operator) (ordinary : isOrdinaryBetween before token after = true) :
    OrdinaryOperator before token after := by
  simp only [isOrdinaryBetween, kind, ne_eq, not_true_eq_false, decide_false, Bool.false_or,
    Bool.and_eq_true, Bool.or_eq_true, Bool.not_eq_true', decide_eq_true_eq] at ordinary
  obtain ⟨⟨⟨bracket, sign⟩, point⟩, cast⟩ := ordinary
  refine ⟨?_, ?_, fun text => ?_, fun text => ?_⟩
  · simpa using bracket
  · intro member
    rcases sign with none | operand
    · have some := List.contains_iff_mem.2 member
      rw [none] at some
      simp at some
    · exact operand
  · rcases point with other | around
    · exact absurd text other
    · simpa using around
  · rcases cast with other | around
    · exact absurd text other
    · exact around

def isOrdinary : Option Token → List Token → Bool
  | _, [] => true
  | before, token :: rest =>
    isOrdinaryBetween before token rest.head? && isOrdinary (some token) rest

/-- What may stand right behind what, if no operator has one operand only. -/
def MayAdjoin (first second : Token) : Prop :=
  second.kind.isPunctuation = true ∨ first.kind = .parenOpen ∨ first.kind = .comma ∨
    first.kind = .operator ∧ (first.text = "." ∨ first.text = "::") ∨
    second.kind = .operator ∧ (second.text = "." ∨ second.text = "::")

structure Next (registry : Registry) (token : Token) (next : Placement) : Prop where
  sound : next.Sound
  read : ∃ behind, ReadFrom registry next.token behind
  respelled : next.token.kind.isWordLike = true →
    IsAscii next.text.toList ∧ Respelled next.token next.text
  adjoins : next.gap = [] → MayAdjoin token next.token
  before : ∃ after, isOrdinaryBetween (some token) next.token after = true
  after : ∃ before, isOrdinaryBetween before token (some next.token) = true

namespace Next

variable {registry : Registry} {token : Token} {next : Placement}

theorem tight (known : Next registry token next) (noGap : next.gap = [])
    (closed : token.kind ≠ .parenOpen ∧ token.kind ≠ .comma)
    (free : token.kind = .operator → token.text ≠ "." ∧ token.text ≠ "::") :
    next.token.kind.isPunctuation = true ∨
      next.token.kind = .operator ∧
        (next.token.text = "." ∧ (token.isPart = true ∨ token.kind = .parenClose) ∨
          next.token.text = "::" ∧ token.isOperand = true) := by
  obtain ⟨after, ordinary⟩ := known.before
  rcases known.adjoins noGap with mark | opening | comma | ⟨kind, joins⟩ | ⟨kind, joins⟩
  · exact .inl mark
  · exact absurd opening closed.1
  · exact absurd comma closed.2
  · rcases joins with text | text
    · exact absurd text (free kind).1
    · exact absurd text (free kind).2
  · refine .inr ⟨kind, ?_⟩
    have around := ordinaryOperator _ _ _ kind ordinary
    rcases joins with text | text
    · exact .inl ⟨text, by simpa using (around.point text).1⟩
    · exact .inr ⟨text, by simpa using (around.cast text).1⟩

theorem text_eq (known : Next registry token next) (plain : next.token.kind.isWordLike = false) :
    next.text = next.token.text := by
  have spelling := known.sound.spelling
  rwa [Spelling, if_neg (by simp [plain])] at spelling

theorem head (known : Next registry token next) (rest : List Placement)
    (closed : token.kind ≠ .parenOpen ∧ token.kind ≠ .comma)
    (free : token.kind = .operator → token.text ≠ "." ∧ token.text ≠ "::") (c : Char)
    (first : (row (next :: rest)).head? = some c) :
    c ∈ partingChars ∨ c = '.' ∧ (token.isPart = true ∨ token.kind = .parenClose) ∨
      c = ':' ∧ token.isOperand = true := by
  rcases head_cases known.sound c first with rfl | rfl | ⟨noGap, first⟩
  · exact .inl (by decide)
  · exact .inl (by decide)
  rcases known.tight noGap closed free with mark | ⟨kind, joins⟩
  · obtain ⟨behind, read⟩ := known.read
    obtain ⟨sign, text, cases⟩ := read.punctuation mark
    have plain : next.token.kind.isWordLike = false := by
      rcases cases with ⟨-, kind⟩ | ⟨-, kind⟩ | ⟨-, kind⟩ | ⟨-, kind⟩ <;> rw [kind] <;> rfl
    rw [known.text_eq plain, text] at first
    obtain rfl : sign = c := by simpa using first
    left
    rcases cases with ⟨rfl, -⟩ | ⟨rfl, -⟩ | ⟨rfl, -⟩ | ⟨rfl, -⟩ <;> decide
  · rw [known.text_eq (by rw [kind]; rfl)] at first
    right
    rcases joins with ⟨text, allowed⟩ | ⟨text, allowed⟩
    · rw [text] at first
      exact .inl ⟨(Option.some.inj first).symm, allowed⟩
    · rw [text] at first
      exact .inr ⟨(Option.some.inj first).symm, allowed⟩

theorem joint (known : Next registry token next) (rest : List Placement)
    (solid : token.kind ≠ .operator) (plain : token.kind.isPunctuation = false) :
    JointAhead (row (next :: rest)) := by
  intro c first
  have closed : token.kind ≠ .parenOpen ∧ token.kind ≠ .comma := by
    constructor <;> intro kind <;> simp [kind, Kind.isPunctuation] at plain
  rcases known.head rest closed (fun kind => absurd kind solid) c first with
    parting | ⟨rfl, -⟩ | ⟨rfl, -⟩
  · have all : partingChars.all isJoint = true := by decide
    exact List.all_eq_true.1 all c parting
  · decide
  · decide

theorem number (known : Next registry token next) (rest : List Placement)
    (kind : token.kind = .numberLiteral) : (row (next :: rest)).head? ≠ some '.' := by
  intro first
  rcases known.head rest (by simp [kind]) (by simp [kind]) '.' first with
    parting | ⟨-, part⟩ | ⟨other, -⟩
  · exact absurd parting (by decide)
  · simp [isPart, isReserved, kind, Kind.isName] at part
  · exact absurd other (by decide)

theorem parted (known : Next registry token next) (rest : List Placement)
    (kind : token.kind = .operator) (noPoint : token.text ≠ ".") (noCast : token.text ≠ "::") :
    Parted (row (next :: rest)) := by
  intro c first
  rcases known.head rest (by simp [kind]) (fun _ => ⟨noPoint, noCast⟩) c first with
    parting | ⟨-, part⟩ | ⟨-, operand⟩
  · exact parting
  · simp [isPart, isReserved, kind, Kind.isName] at part
  · simp [isOperand, isKeyword, isReserved, kind, Kind.isOperand] at operand

theorem digit (known : Next registry token next) (rest : List Placement)
    (kind : token.kind = .operator) (text : token.text = ".") (c : Char)
    (first : (row (next :: rest)).head? = some c) : isDigitSign c = false := by
  rcases head_cases known.sound c first with rfl | rfl | ⟨-, first⟩
  · decide
  · decide
  obtain ⟨before, ordinary⟩ := known.after
  have follows := ((ordinaryOperator _ _ _ kind ordinary).point text).2
  by_cases wordLike : next.token.kind.isWordLike = true
  · obtain ⟨small, respelled⟩ := known.respelled wordLike
    cases respelled with
    | words before after worded again same =>
      obtain ⟨d, others, whole, starts⟩ := again.start
      rw [whole] at first
      obtain rfl : d = c := by simpa using first
      exact isDigitSign_of_isWordStart d (small d (by simp [whole])) starts
    | special d name whole _ sign _ _ _ =>
      rw [whole] at first
      obtain rfl : d = c := by simpa using first
      rcases sign with rfl | rfl <;> decide
  rw [known.text_eq (by simpa using wordLike)] at first
  by_cases isStar : next.token.text = "*"
  · rw [isStar] at first
    obtain rfl := Option.some.inj first
    decide
  have quoted : next.token.kind = .quotedIdentifier := by
    cases kind : next.token.kind <;>
      simp [isPart, isReserved, kind, Kind.isName, Kind.isWordLike, isStar] at follows wordLike ⊢
  obtain ⟨behind, read⟩ := known.read
  rcases read.head_of_quoted quoted c first with rfl | rfl | rfl <;> decide

theorem gap_ne_nil (known : Next registry token next) (wordLike : token.kind.isWordLike = true)
    {c : Char} {rest : List Char} (start : next.token.text.toList = c :: rest)
    (starts : isWordStart c = true) : next.gap ≠ [] := by
  intro noGap
  have noSign (sign : Char) (first : next.token.text.toList.head? = some sign)
      (other : isWordStart sign = false) : False := by
    obtain rfl : c = sign := by simpa [start] using first
    simp [starts] at other
  have kinds : token.kind ≠ .parenOpen ∧ token.kind ≠ .comma ∧ token.kind ≠ .operator := by
    cases kind : token.kind <;> simp [kind, Kind.isWordLike] at wordLike ⊢
  rcases known.tight noGap ⟨kinds.1, kinds.2.1⟩ fun kind => absurd kind kinds.2.2 with
    mark | ⟨-, joins⟩
  · obtain ⟨behind, read⟩ := known.read
    obtain ⟨sign, text, cases⟩ := read.punctuation mark
    refine noSign sign (by simp [text]) ?_
    rcases cases with ⟨rfl, -⟩ | ⟨rfl, -⟩ | ⟨rfl, -⟩ | ⟨rfl, -⟩ <;> decide
  · rcases joins with ⟨text, -⟩ | ⟨text, -⟩
    · exact noSign '.' (congrArg (·.toList.head?) text) (by decide)
    · exact noSign ':' (congrArg (·.toList.head?) text) (by decide)

end Next

theorem ahead_gap_other (gap : List Char) (c : Char) (rest : List Char)
    (blank : ∀ d ∈ gap, Text.isBlank d = true) (visible : Text.isBlank c = false)
    (other : isWordStart c = false) : ahead (gap ++ c :: rest) = [] := by
  have span : spanLength Text.isBlank (gap ++ c :: rest) = gap.length := by
    refine spanLength_front Text.isBlank gap _ blank fun d head => ?_
    obtain rfl : c = d := by simpa using head
    exact visible
  refine ahead_of_none _ ?_
  rw [span, List.drop_left, wordLength?, if_neg (by simp [other])]

theorem ahead_of_blank (gap : List Char) (blank : ∀ d ∈ gap, Text.isBlank d = true) :
    ahead gap = [] := by
  have span := spanLength_front Text.isBlank gap [] blank (by simp)
  rw [List.append_nil] at span
  refine ahead_of_none _ ?_
  rw [span, List.drop_length]
  rfl

theorem Worded.ahead_gap {words : List (List Char)} {chars : List Char}
    (worded : Worded words chars) (gap suffix : List Char) (apart : gap ≠ [])
    (blank : ∀ c ∈ gap, Text.isBlank c = true) (ends : NameEnds suffix) :
    (Token.ahead (gap ++ (chars ++ suffix))).map Prod.snd =
      words ++ (Token.ahead suffix).map Prod.snd := by
  obtain ⟨word, behind, others, steps, rfl, plain, rfl, endsHere, onward, names, -⟩ :=
    worded.ahead suffix ends
  rw [List.append_assoc, ahead_gap_word apart blank plain _ endsHere, onward, List.map_cons,
    List.map_append, names]
  rfl

theorem quoted?_start (c : Char) (rest : List Char) (lexeme : Lexeme)
    (found : quoted? c rest = some lexeme) (starts : isWordStart c = true) :
    ∃ d tail, rest.take lexeme.more = d :: tail ∧ isNamePart d = false ∧
      Text.isBlank d = false := by
  have apart (sign : Char) (other : isWordStart sign = false) : c ≠ sign := by
    rintro rfl
    simp [starts] at other
  unfold quoted? at found
  rw [if_neg (apart '\'' (by decide))] at found
  split at found
  · rename_i marked
    obtain ⟨body, rfl⟩ := List.head?_eq_some_iff.1 marked.2
    obtain rfl := Option.some.inj found
    rw [Clear.more_of_quotedRun, Nat.add_comm, List.take_succ_cons]
    exact ⟨'\'', _, rfl, by decide, by decide⟩
  split at found
  · rename_i marked
    obtain ⟨body, rfl⟩ := List.isPrefixOf_iff_prefix.1 marked.2
    obtain rfl := Option.some.inj found
    rw [Clear.more_of_quotedRun, Nat.add_comm, List.cons_append, List.take_succ_cons]
    exact ⟨'&', _, rfl, by decide, by decide⟩
  rw [if_neg (apart '"' (by decide)), if_neg (apart '`' (by decide +kernel))] at found
  simp at found

theorem ReadFrom.start {registry : Registry} {token : Token} {behind : List Char}
    (read : ReadFrom registry token behind) (plain : token.kind.isWordLike = false)
    (visible : token.kind ≠ .blank) :
    ∃ c rest, token.text.toList = c :: rest ∧ Text.isBlank c = false ∧
      (isWordStart c = true →
        ∃ d tail, rest = d :: tail ∧ isNamePart d = false ∧ Text.isBlank d = false) := by
  have first := read.start_visible visible
  obtain ⟨c, rest, lexeme, scans, kind, text, -, -⟩ := read
  rw [kind] at plain visible
  refine ⟨c, _, text, first c (by simp [text]), fun starts => ?_⟩
  have sign (other : isWordStart c = false) :
      ∃ d tail, rest.take lexeme.more = d :: tail ∧ isNamePart d = false ∧
        Text.isBlank d = false := by
    simp [other] at starts
  cases scans with
  | blank => exact absurd rfl visible
  | line first | block first => exact sign (by rw [first]; decide)
  | quoted lexeme found _ => exact quoted?_start c rest lexeme found starts
  | bracket first | dollar first | question first | bound first =>
    exact sign (by rw [first]; decide)
  | special => simp [Kind.isWordLike] at plain
  | punctuation mark first =>
    rcases first with ⟨first, -⟩ | ⟨first, -⟩ | ⟨first, -⟩ | ⟨first, -⟩ <;>
      exact sign (by rw [first]; decide)
  | number unmarked length found =>
    refine sign ?_
    obtain ⟨first, head, numeral⟩ := numeral_of_numberLength? _ length found
    obtain rfl : c = first := by simpa using head
    simp only [isNumeral, Bool.or_eq_true, decide_eq_true_eq] at numeral
    rcases numeral with digit | rfl
    · simp [isWordStart, digit]
    · decide
  | signed unmarked first =>
    refine sign ?_
    rcases first with rfl | rfl <;> decide
  | word _ _ given => rcases given with given | given <;> simp [given, Kind.isWordLike] at plain
  | operator unmarked first => exact sign first

theorem ahead_gap_plain {gap : List Char} {c : Char} {tail : List Char} (rest : List Char)
    (blank : ∀ d ∈ gap, Text.isBlank d = true) (visible : Text.isBlank c = false)
    (apart : isWordStart c = true → gap ≠ [])
    (follows : isWordStart c = true →
      ∃ d behind, tail = d :: behind ∧ isNamePart d = false ∧ Text.isBlank d = false) :
    (ahead (gap ++ (c :: tail ++ rest))).map Prod.snd = if isWordStart c then [[c]] else [] := by
  by_cases starts : isWordStart c = true
  · obtain ⟨d, behind, rfl, ends, solid⟩ := follows starts
    have plain : IsPlainWord [c] :=
      ⟨⟨c, [], rfl, starts⟩, List.forall_mem_singleton.2 (isNamePart_of_isWordStart c starts)⟩
    have stops : NameEnds (d :: (behind ++ rest)) := by
      intro e head
      obtain rfl : d = e := by simpa using head
      exact ends
    have tight : spanLength Text.isBlank (d :: (behind ++ rest)) = 0 := by simp [spanLength, solid]
    have onward := ahead_gap_word (apart starts) blank plain _ stops
    rw [List.singleton_append] at onward
    rw [List.cons_append, List.cons_append, onward, ahead_of_tight _ tight, if_pos starts]
    rfl
  · rw [List.cons_append, ahead_gap_other gap c _ blank visible (by simpa using starts),
      if_neg starts]
    rfl

/-- A row goes through the tokens of another one. At the start and behind a semicolon it
may leave semicolons out. -/
inductive Echo : Bool → List Placement → List Placement → Prop
  | nil (fresh : Bool) : Echo fresh [] []
  | skip {placement : Placement} {source row : List Placement}
      (ends : placement.token.kind = .semicolon) (more : Echo true source row) :
      Echo true (placement :: source) row
  | cons {fresh : Bool} {placement again : Placement} {source row : List Placement}
      (same : again.token = placement.token)
      (more : Echo (placement.token.kind = .semicolon) source row) :
      Echo fresh (placement :: source) (again :: row)

theorem Echo.nil_of_nil {fresh : Bool} {written : List Placement} (echo : Echo fresh [] written) :
    written = [] := by
  cases echo
  rfl

/-- The tokens of a text from some place on, and a row of them. Of the tokens before the place
there are the last one and the last that is no comment. -/
structure Repeats (registry : Registry) (trailing : List Char) (last before : Option Token)
    (source written : List Placement) : Prop where
  scanned : Scanned registry trailing last source
  ordinary : isOrdinary before (source.map Placement.token) = true
  ascii : ∀ placement ∈ source, IsAscii placement.token.text.toList
  sound : ∀ placement ∈ written, placement.Sound
  adjoins : written.IsChain fun first second =>
    second.gap = [] → MayAdjoin first.token second.token
  parts : written.IsChain Parts

namespace Repeats

variable {registry : Registry} {trailing : List Char} {last before : Option Token}
  {placement again : Placement} {source written : List Placement}

theorem skip (repeats : Repeats registry trailing last before (placement :: source) written) :
    Repeats registry trailing (if placement.token.isSolid then some placement.token else last)
      (some placement.token) source written where
  scanned := by
    cases repeats.scanned with
    | cons _ _ _ more => exact more
  ordinary := (Bool.and_eq_true_iff.1 repeats.ordinary).2
  ascii := fun other member => repeats.ascii other (List.mem_cons_of_mem _ member)
  sound := repeats.sound
  adjoins := repeats.adjoins
  parts := repeats.parts

theorem tail (repeats : Repeats registry trailing last before (placement :: source)
    (again :: written)) :
    Repeats registry trailing (if placement.token.isSolid then some placement.token else last)
      (some placement.token) source written where
  scanned := repeats.skip.scanned
  ordinary := repeats.skip.ordinary
  ascii := repeats.skip.ascii
  sound := fun other member => repeats.sound other (List.mem_cons_of_mem _ member)
  adjoins := repeats.adjoins.tail
  parts := repeats.parts.tail

theorem breaks (repeats : Repeats registry trailing last before source (again :: written))
    (isLine : again.token.isLineComment = true) (c : Char)
    (head : (row written).head? = some c) : c = '\n' := by
  cases written with
  | nil => simp at head
  | cons next rest =>
    have parts : Parts again next := (List.isChain_cons_cons.1 repeats.parts).1
    obtain ⟨gap, start⟩ := List.head?_eq_some_iff.1 (parts isLine)
    rw [row_cons, start] at head
    simpa using head.symm

theorem visible
    (repeats : Repeats registry trailing last before (placement :: source) written) :
    placement.token.kind ≠ .blank := by
  cases repeats.scanned with
  | cons _ _ visible _ => exact visible

theorem scannedFrom
    (repeats : Repeats registry trailing last before (placement :: source) written) :
    ScannedFrom registry last placement.token (row source ++ trailing) := by
  cases repeats.scanned with
  | cons _ scanned _ _ => exact scanned

theorem next {following : Placement} (spells : registry.compounds.spells [] = true)
    (repeats : Repeats registry trailing last before (placement :: source)
      (again :: following :: written))
    (same : again.token = placement.token) (echo : Echo false source (following :: written)) :
    Next registry placement.token following := by
  cases echo with
  | @cons _ nextPlacement _ rest _ sameNext more =>
    have onward := repeats.tail
    have read := onward.scannedFrom.readFrom
    have sound := onward.sound following (by simp)
    have ordinary := repeats.ordinary
    simp only [List.map_cons, isOrdinary, Bool.and_eq_true] at ordinary
    refine ⟨sound, ⟨_, sameNext ▸ read⟩, ?_, ?_, ⟨_, sameNext ▸ ordinary.2.1⟩,
      ⟨before, sameNext ▸ ordinary.1⟩⟩
    · intro wordLike
      rw [sameNext] at wordLike ⊢
      exact (read.wordRead wordLike).respelled wordLike spells (onward.ascii nextPlacement (by simp))
        following.text (sameNext ▸ sound.spelling)
    · have adjoins := (List.isChain_cons_cons.1 repeats.adjoins).1
      rwa [same] at adjoins

theorem joint (spells : registry.compounds.spells [] = true)
    (repeats : Repeats registry trailing last before (placement :: source) (again :: written))
    (same : again.token = placement.token) (echo : Echo false source written)
    (solid : placement.token.kind ≠ .operator)
    (plain : placement.token.kind.isPunctuation = false) : JointAhead (row written) := by
  cases written with
  | nil => simp [JointAhead]
  | cons following rest => exact (repeats.next spells same echo).joint rest solid plain

theorem ahead (spells : registry.compounds.spells [] = true)
    (repeats : Repeats registry trailing last before (placement :: source) (again :: written))
    (same : again.token = placement.token) (echo : Echo false source written)
    (wordLike : placement.token.kind.isWordLike = true)
    (ends : NameEnds (row source ++ trailing)) :
    ((Token.ahead (row written)).map Prod.snd).map upperWord =
      ((Token.ahead (row source ++ trailing)).map Prod.snd).map upperWord := by
  induction source generalizing last before placement again written with
  | nil =>
    cases echo
    cases repeats.tail.scanned with
    | nil _ blank => rw [row_nil, List.nil_append, ahead_of_blank trailing blank, ahead_of_blank []
        (by simp)]
  | cons placement' source ih =>
    cases echo with
    | @cons _ _ again' _ written sameNext more =>
      have known := repeats.next spells same (.cons sameNext more)
      have onward := repeats.tail
      cases onward.scanned with
      | @cons _ gap token _ blank scanned visible _ =>
        have writtenBlank : ∀ c ∈ again'.gap, Text.isBlank c = true := by
          intro c member
          rcases known.sound.blank c member with rfl | rfl <;> decide
        have apart (c : Char) (tail : List Char) (head : token.text.toList = c :: tail)
            (starts : isWordStart c = true) : gap ≠ [] := by
          rintro rfl
          have part := ends c (by simp [head])
          simp [isNamePart_of_isWordStart c starts] at part
        have writtenApart (c : Char) (tail : List Char) (head : token.text.toList = c :: tail)
            (starts : isWordStart c = true) : again'.gap ≠ [] :=
          known.gap_ne_nil wordLike (by rw [sameNext]; exact head) starts
        rw [row_cons, row_cons, List.append_assoc, List.append_assoc]
        by_cases isWord : token.kind.isWordLike = true
        · have read := scanned.readFrom.wordRead isWord
          obtain ⟨-, respelled⟩ := known.respelled (by rw [sameNext]; exact isWord)
          rw [sameNext] at respelled
          cases respelled with
          | words _ after other againWorded sameWords =>
            cases read with
            | words words given worded endsThere named contents free =>
              obtain ⟨c, tail, head, starts⟩ := worded.start
              have kinds : token.kind ≠ .operator ∧ token.kind.isPunctuation = false ∧
                  token.kind ≠ .semicolon := by
                cases kind : token.kind <;>
                  simp [kind, Kind.isWordLike, Kind.isPunctuation] at isWord ⊢
              have further : Echo false source written := by
                rwa [decide_eq_false kinds.2.2] at more
              have joint := onward.joint spells sameNext further kinds.1 kinds.2.1
              rw [againWorded.ahead_gap _ _ (writtenApart c tail head starts) writtenBlank
                  (joint.outside isNamePart (by decide)),
                worded.ahead_gap gap _ (apart c tail head starts) blank endsThere,
                List.map_append, List.map_append, sameWords, other.unique worded,
                ih onward sameNext further isWord endsThere]
            | special c name whole sign =>
              exact (other.head_not_sign c (by simp [whole]) sign).elim
          | special c name whole head sign =>
            obtain ⟨tail, start⟩ := List.head?_eq_some_iff.1 head
            have visible : Text.isBlank c = false := by rcases sign with rfl | rfl <;> decide
            have other : isWordStart c = false := by
              rcases sign with rfl | rfl <;> decide
            rw [whole, start, List.cons_append, List.cons_append,
              ahead_gap_other _ c _ writtenBlank visible other,
              ahead_gap_other gap c _ blank visible other]
        · have plain : token.kind.isWordLike = false := by simpa using isWord
          have text : again'.text = token.text := by
            rw [known.text_eq (by rw [sameNext]; exact plain), sameNext]
          obtain ⟨c, tail, start, noBlank, follows⟩ := scanned.readFrom.start plain visible
          rw [text, start, ahead_gap_plain _ writtenBlank noBlank (writtenApart c tail start) follows,
            ahead_gap_plain _ blank noBlank (apart c tail start) follows]

theorem precedes (spells : registry.compounds.spells [] = true)
    (repeats : Repeats registry trailing last before (placement :: source) (again :: written))
    (same : again.token = placement.token)
    (echo : Echo (placement.token.kind = .semicolon) source written) :
    Precedes placement.token (row source ++ trailing) (row written) := by
  have further (other : placement.token.kind ≠ .semicolon) : Echo false source written := by
    rwa [decide_eq_false other] at echo
  refine ⟨?_, ?_, ?_, ?_, ?_⟩
  · intro nothing
    cases source with
    | nil => rw [echo.nil_of_nil, row_nil]
    | cons next rest =>
      cases repeats.tail.scanned with
      | cons _ scanned _ _ =>
        obtain ⟨c, others, lexeme, -, -, text, -⟩ := scanned
        simp [text] at nothing
  · intro solid plain
    refine repeats.joint spells same (further ?_) solid plain
    intro kind
    simp [kind, Kind.isPunctuation] at plain
  · intro kind
    cases written with
    | nil => simp
    | cons next rest =>
      exact (repeats.next spells same (further (by simp [kind]))).number rest kind
  · intro kind
    have ordinary := repeats.ordinary
    simp only [List.map_cons, isOrdinary, Bool.and_eq_true] at ordinary
    have around := ordinaryOperator _ _ _ kind ordinary.1
    by_cases cast : placement.token.text = "::"
    · exact .inl cast
    by_cases point : placement.token.text = "."
    · refine .inr (.inl ⟨point, fun c first => ?_⟩)
      cases written with
      | nil => simp at first
      | cons next rest =>
        exact (repeats.next spells same (further (by simp [kind]))).digit rest kind point c first
    · refine .inr (.inr ⟨point, ?_, ?_⟩)
      · intro bracket
        exact around.bracket (by simp [bracket])
      · cases written with
        | nil => simp [Parted]
        | cons next rest =>
          exact (repeats.next spells same (further (by simp [kind]))).parted rest kind point cast
  · intro wordLike
    refine repeats.ahead spells same (further ?_) wordLike
      (repeats.scannedFrom.readFrom.wordRead wordLike).nameEnds
    intro kind
    simp [kind, Kind.isWordLike] at wordLike

theorem scans
    (repeats : Repeats registry trailing last before (placement :: source) (again :: written))
    (spells : registry.compounds.spells [] = true) (same : again.token = placement.token)
    (echo : Echo (placement.token.kind = .semicolon) source written) (last' : Option Token)
    (operand : last'.any isOperand = last.any isOperand) :
    ScansAs registry last' again.text (row written) placement.token.kind
      (placement.token.calledAs again.text) := by
  have precedes := repeats.precedes spells same echo
  have spelling := (repeats.sound again (by simp)).spelling
  rw [same] at spelling
  by_cases isComment : placement.token.kind = .comment
  · have free : placement.token.kind ≠ .reservedWord := by simp [isComment]
    have text : again.text = placement.token.text := by
      rwa [Spelling, if_neg (by simp [isComment, Kind.isWordLike])] at spelling
    have contents := repeats.scannedFrom.readFrom.contents_eq_text (by simp [isReserved, free])
    have called : placement.token.calledAs again.text = placement.token.contents := by
      rw [calledAs_of_free _ _ free, text, contents]
    rw [called, text]
    exact repeats.scannedFrom.comment isComment precedes.closed
      (fun isLine => repeats.breaks (by rwa [same])) last'
  · exact repeats.scannedFrom.again precedes repeats.visible isComment spells
      (repeats.ascii placement (by simp)) again.text spelling last' operand

end Repeats

theorem ReadAs.isOperand {placement : Placement} {again : Token} (readAs : ReadAs placement again) :
    again.isOperand = placement.token.isOperand := by
  have keyword : again.isKeyword operandWords = placement.token.isKeyword operandWords := by
    rw [isKeyword, isKeyword, isReserved, isReserved, readAs.kind, readAs.contents, calledAs,
      isReserved]
    by_cases reserved : placement.token.kind = .reservedWord
    · simp [reserved]
    · simp [reserved]
  rw [Token.isOperand, Token.isOperand, readAs.kind, keyword]

theorem ReadAs.isSolid {placement : Placement} {again : Token} (readAs : ReadAs placement again) :
    again.isSolid = placement.token.isSolid := by
  rw [Token.isSolid, Token.isSolid, isBlank, isBlank, isComment, isComment, readAs.kind]

theorem isSolid_of_semicolon (token : Token) (ends : token.kind = .semicolon) :
    token.isSolid = true := by
  simp [isSolid, isBlank, isComment, ends]

/-- A row that repeats the tokens of a text is read as them: the last solid tokens before the
text and before the row are both operands or both none. -/
theorem Echo.rereads {registry : Registry} {trailing : List Char} {fresh : Bool}
    {source written : List Placement} (echo : Echo fresh source written)
    (spells : registry.compounds.spells [] = true) (before last last' : Option Token)
    (repeats : Repeats registry trailing last before source written)
    (start : fresh = true → last.any Token.isOperand = false)
    (operand : last'.any Token.isOperand = last.any Token.isOperand) :
    Rereads registry last' written := by
  induction echo generalizing before last last' with
  | nil => exact .nil registry last'
  | @skip placement source written ends more ih =>
    have closed := isOperand_of_semicolon placement.token ends
    have solid := isSolid_of_semicolon placement.token ends
    refine ih (some placement.token) _ last' repeats.skip ?_ ?_
    · simpa [solid] using closed
    · rw [operand, start rfl, if_pos solid]
      simpa using closed.symm
  | @cons fresh placement again source written same more ih =>
    have visible : again.token.kind ≠ .blank := same ▸ repeats.visible
    have scans := repeats.scans spells same more last' operand
    rw [← same] at scans
    refine .cons (repeats.sound again (by simp)) scans visible fun read readAs => ?_
    have solid := readAs.isSolid
    rw [same] at solid
    refine ih (some placement.token) _ _ repeats.tail (fun ends => ?_) ?_
    · have kind : placement.token.kind = .semicolon := by simpa using ends
      rw [if_pos (isSolid_of_semicolon placement.token kind)]
      simpa using isOperand_of_semicolon placement.token kind
    · rw [solid]
      split
      · simpa [same] using readAs.isOperand
      · exact operand

end SqlLayout.Token
