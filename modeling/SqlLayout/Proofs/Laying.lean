import SqlLayout.Proofs.Printing

/-! The text that a drawing leaves behind. Tokens are laid one behind the other, each with
one of its spellings, and nothing but spaces and line breaks comes between them. Where
nothing at all comes between two of them, the rules of spacing allow it. `Inked` is what
every step keeps: the text so far is laid, and the writer remembers how it ends. -/
namespace SqlLayout.Layout

open SqlLayout.Tree

def endsUnary (tokens : List Token) : Bool :=
  tokens.getLast?.any fun last => Sheet.isUnary last tokens.dropLast.getLast?

/-- Whether a token may follow right behind other tokens. -/
def MayTouch (sheet : Sheet) (before : List Token) (token : Token) : Prop :=
  token.kind.isPunctuation = true ∨
    ∃ last, before.getLast? = some last ∧
      (last.kind = .parenOpen ∨ last.kind = .comma ∨ endsUnary before = true ∨
        sheet.gluesAfter last = true ∨ sheet.gluesBefore token last = true)

def endsLine (tokens : List Token) : Bool :=
  tokens.getLast?.any Token.isLineComment

/-- Tokens that make up a text, with blanks before all but the first of them. Behind a line
comment there is a line break. -/
inductive Laid (sheet : Sheet) : List Token → List Char → Prop
  | nil : Laid sheet [] []
  | snoc {tokens : List Token} {chars : List Char} (laid : Laid sheet tokens chars)
      (gap : List Char) (token : Token) (text : String)
      (blank : ∀ c ∈ gap, c = ' ' ∨ c = '\n') (atStart : tokens = [] → gap = [])
      (spelling : Spelling token text) (filled : text ≠ "")
      (apart : tokens ≠ [] → gap = [] → MayTouch sheet tokens token)
      (breaks : endsLine tokens = true → gap.head? = some '\n') :
      Laid sheet (tokens ++ [token]) (chars ++ gap ++ text.toList)

structure Fits (mark : Mark) : Prop where
  kind : mark.token.kind = mark.kind
  comma : mark.token.kind = .comma → mark.token.text = ","
  filled : ∀ text, Spelling mark.token text → text ≠ ""

theorem Fits.endsLine {mark : Mark} (fits : Fits mark) :
    mark.endsLine = mark.token.isLineComment := by
  rw [Mark.endsLine, ← fits.kind, Token.isLineComment, Token.isComment, ← Bool.and_assoc,
    Bool.and_self]

namespace Writer

@[simp] theorem lastUnary_space (w : Writer) : w.space.lastUnary = w.lastUnary := by
  unfold space spaces
  split <;> rfl

@[simp] theorem lastUnary_newline (indent : Nat) (w : Writer) :
    (w.newline indent).lastUnary = w.lastUnary := by
  unfold newline
  split
  · rw [lastUnary_space]
  · rfl

@[simp] theorem lastUnary_padTo (column : Nat) (w : Writer) :
    (w.padTo column).lastUnary = w.lastUnary := by
  unfold padTo
  split
  · exact lastUnary_space w
  · split <;> rfl

def gap (w : Writer) : List Char :=
  (Piece.mk w.settle.pendingBreak w.settle.pendingSpaces "").separator

/-- Some blank is asked for that the next text cannot do without. -/
def Waits (w : Writer) : Prop :=
  w.pendingBreak = true ∨ w.lineHasContent = true ∧ 0 < w.pendingSpaces

theorem chars_settle (w : Writer) : w.settle.chars = w.chars :=
  chars_eq_of_pieces (pieces_settle w)

theorem chars_write_gap (text : String) (w : Writer) (filled : text ≠ "") :
    (w.write text).chars = w.chars ++ w.gap ++ text.toList := by
  rw [chars_write text w filled, chars_settle, gap, List.append_assoc]
  rfl

theorem mem_gap (w : Writer) (c : Char) (member : c ∈ w.gap) : c = ' ' ∨ c = '\n' := by
  unfold gap Piece.separator at member
  rcases List.mem_append.1 member with inBreak | inSpaces
  · split at inBreak
    · exact .inr (by simpa using inBreak)
    · simp at inBreak
  · exact .inl (List.eq_of_mem_replicate inSpaces)

theorem waits_space (w : Writer) (content : w.lineHasContent = true ∨ w.pendingBreak = true) :
    w.space.Waits := by
  unfold space spaces
  rcases content with here | broken
  · rw [if_pos here]
    refine .inr ⟨here, ?_⟩
    simp only
    omega
  · split
    · exact .inl broken
    · exact .inl broken

theorem waits_newline (indent : Nat) (w : Writer)
    (content : w.lineHasContent = true ∨ w.pendingBreak = true) : (w.newline indent).Waits := by
  unfold newline
  split
  · exact waits_space _ content
  · left
    rcases content with here | broken
    · simp [here]
    · simp [broken]

theorem waits_settle (w : Writer) (waits : w.Waits) : w.settle.Waits := by
  unfold settle
  split
  · refine waits_newline _ w ?_
    rcases waits with broken | ⟨here, -⟩
    · exact .inr broken
    · exact .inl here
  · exact waits

theorem gap_ne_nil (w : Writer) (waits : w.Waits) : w.gap ≠ [] := by
  unfold gap Piece.separator
  rcases waits_settle w waits with broken | ⟨-, spaced⟩
  · simp [broken]
  · simp only [ne_eq, List.append_eq_nil_iff, List.replicate_eq_nil_iff, not_and]
    omega

theorem head_gap (w : Writer) (breaks : w.Breaks) : w.gap.head? = some '\n' := by
  rw [Breaks] at breaks
  simp [gap, Piece.separator, breaks]

end Writer

/-- What has been written is laid, and a line is empty only at the start or behind a break.
Behind a line comment a break waits; on one line there is no such comment. -/
structure Laying (sheet : Sheet) (tokens : List Token) (w : Writer) : Prop where
  laid : Laid sheet tokens w.chars
  content : tokens ≠ [] → w.lineHasContent = true ∨ w.pendingBreak = true
  fresh : tokens = [] → w.pendingSpaces = 0 ∧ w.pendingBreak = false ∧
    w.lineHasContent = false ∧ w.breakIndent = none
  breaks : endsLine tokens = true → w.inline = false ∧ w.Breaks

namespace Laying

variable {sheet : Sheet} {tokens : List Token} {w : Writer}

theorem breaks_of_idles {v : Writer} (laying : Laying sheet tokens w) (idles : w.Idles v)
    (ends : endsLine tokens = true) : v.inline = false ∧ v.Breaks := by
  obtain ⟨lines, breaks⟩ := laying.breaks ends
  exact ⟨idles.inline.trans lines, idles.breaks lines breaks⟩

theorem space (laying : Laying sheet tokens w) : Laying sheet tokens w.space := by
  refine ⟨?_, ?_, ?_, laying.breaks_of_idles (.space w)⟩
  · rw [Writer.space, Writer.chars_eq_of_pieces (Writer.pieces_spaces 1 w)]
    exact laying.laid
  · intro some
    have content := laying.content some
    unfold Writer.space Writer.spaces
    split
    · exact content
    · exact content
  · intro nothing
    have fresh := laying.fresh nothing
    unfold Writer.space Writer.spaces
    rw [if_neg (by simp [fresh.2.2.1])]
    exact fresh

theorem newline (laying : Laying sheet tokens w) (indent : Nat)
    (atStart : tokens = [] → indent = 0) : Laying sheet tokens (w.newline indent) := by
  by_cases inline : w.inline = true
  · have settled : Laying sheet tokens { w with breakIndent := none } := by
      refine ⟨laying.laid, laying.content, ?_, fun ends => ?_⟩
      · intro nothing
        have fresh := laying.fresh nothing
        exact ⟨fresh.1, fresh.2.1, fresh.2.2.1, rfl⟩
      · simp [(laying.breaks ends).1] at inline
    rw [Writer.newline, if_pos inline]
    exact settled.space
  · have breaks := laying.breaks_of_idles (.newline indent w)
    rw [Writer.newline, if_neg inline] at breaks ⊢
    refine ⟨laying.laid, ?_, ?_, breaks⟩
    · intro some
      rcases laying.content some with here | broken
      · exact .inr (by simp [here])
      · exact .inr (by simp [broken])
    · intro nothing
      have fresh := laying.fresh nothing
      exact ⟨atStart nothing, by simp [fresh], rfl, rfl⟩

theorem padTo (laying : Laying sheet tokens w) (column : Nat) :
    Laying sheet tokens (w.padTo column) := by
  have breaks := laying.breaks_of_idles (.padTo column w)
  unfold Writer.padTo at breaks ⊢
  split
  · exact laying.space
  · rename_i apart
    rw [if_neg apart] at breaks
    split
    · rename_i content
      rw [if_pos content] at breaks
      refine ⟨laying.laid, laying.content, ?_, breaks⟩
      intro nothing
      have fresh := laying.fresh nothing
      simp [fresh.2.2.1] at content
    · exact laying

theorem gap_eq_nil (laying : Laying sheet tokens w) (nothing : tokens = []) : w.gap = [] := by
  obtain ⟨spaces, unbroken, -, settled⟩ := laying.fresh nothing
  unfold Writer.gap Writer.settle Piece.separator
  simp [settled, spaces, unbroken]

theorem laid_write (laying : Laying sheet tokens w) (token : Token) (text : String)
    (spelling : Spelling token text) (filled : text ≠ "")
    (apart : tokens ≠ [] → w.gap = [] → MayTouch sheet tokens token) :
    Laid sheet (tokens ++ [token]) (w.write text).chars := by
  rw [Writer.chars_write_gap text w filled]
  exact .snoc laying.laid w.gap token text (Writer.mem_gap w) laying.gap_eq_nil spelling filled
    apart fun ends => w.head_gap (laying.breaks ends).2

theorem write (laying : Laying sheet tokens w) (token : Token) (text : String)
    (spelling : Spelling token text) (filled : text ≠ "") (other : token.isLineComment = false)
    (apart : tokens ≠ [] → w.gap = [] → MayTouch sheet tokens token) :
    Laying sheet (tokens ++ [token]) (w.write text) := by
  refine ⟨laying.laid_write token text spelling filled apart, ?_, ?_, ?_⟩
  · intro _
    rw [Writer.write, if_neg filled]
    exact .inl rfl
  · intro nothing
    simp at nothing
  · intro ends
    simp [endsLine, other] at ends

end Laying

/-- The writer remembers the last token; any comma stands for every other one, and behind
a comma that leads a line the writer goes on as behind a parenthesis. -/
def Recalls (tokens : List Token) (last : Option Token) : Prop :=
  last = tokens.getLast? ∨
    ∃ token, tokens.getLast? = some token ∧ token.kind = .comma ∧
      (last = some commaToken ∨ last = some openToken)

namespace Recalls

variable {tokens : List Token} {last : Option Token}

theorem eq_none_of_nil (recalls : Recalls tokens last) (nothing : tokens = []) : last = none := by
  subst nothing
  rcases recalls with same | ⟨token, found, -⟩
  · exact same
  · simp at found

theorem isUnaryPlace (recalls : Recalls tokens last) :
    Sheet.isUnaryPlace last = Sheet.isUnaryPlace tokens.getLast? := by
  rcases recalls with same | ⟨token, found, isComma, comma | opening⟩
  · rw [same]
  · simp [found, comma, Sheet.isUnaryPlace, isComma, commaToken, Token.plain]
  · simp [found, opening, Sheet.isUnaryPlace, isComma, openToken, Token.plain]

theorem isUnary (recalls : Recalls tokens last) (token : Token) :
    Sheet.isUnary token last = Sheet.isUnary token tokens.getLast? := by
  rw [Sheet.isUnary, recalls.isUnaryPlace, Sheet.isUnary]

theorem snoc (tokens : List Token) (token : Token) : Recalls (tokens ++ [token]) (some token) :=
  .inl (by simp)

end Recalls

theorem endsUnary_snoc (tokens : List Token) (token : Token) :
    endsUnary (tokens ++ [token]) = Sheet.isUnary token tokens.getLast? := by
  simp [endsUnary]

theorem isUnary_of_kind (token : Token) (last : Option Token) (other : token.kind ≠ .operator) :
    Sheet.isUnary token last = false := by
  simp [Sheet.isUnary, other]

theorem isLineComment_of_kind (token : Token) (other : token.kind ≠ .comment) :
    token.isLineComment = false := by
  simp [Token.isLineComment, Token.isComment, other]

theorem mayTouch_of_needsSpace (sheet : Sheet) (tokens : List Token) (w : Writer) (token : Token)
    (recalls : Recalls tokens w.last) (unary : w.lastUnary = endsUnary tokens)
    (tight : sheet.needsSpace w token = false) : MayTouch sheet tokens token := by
  rcases recalls with same | ⟨last, found, isComma, -⟩
  · cases final : tokens.getLast? with
    | none =>
      rw [final] at same
      simp [Sheet.needsSpace, same] at tight
    | some last =>
      rw [final] at same
      simp only [Sheet.needsSpace, same] at tight
      split at tight
      · simp at tight
      split at tight
      · rename_i other punctuation
        left
        unfold Token.Kind.isPunctuation
        rcases punctuation with comma | semicolon | closing
        · rw [comma]
        · rw [semicolon]
        · rw [closing]
      split at tight
      · rename_i opening
        exact .inr ⟨last, final, .inl opening⟩
      split at tight
      · rename_i comma
        exact .inr ⟨last, final, .inr (.inl comma)⟩
      split at tight
      · rename_i isUnary
        exact .inr ⟨last, final, .inr (.inr (.inl (unary ▸ isUnary)))⟩
      · simp only [Bool.and_eq_false_iff, Bool.not_eq_false'] at tight
        exact .inr ⟨last, final, .inr (.inr (.inr tight))⟩
  · exact .inr ⟨last, found, .inr (.inl isComma)⟩

theorem endsUnary_enclose (outer tokens : List Token) (opening : Token)
    (last : outer.getLast? = some opening) (isOpening : opening.kind = .parenOpen)
    (some : tokens ≠ []) : endsUnary (outer ++ tokens) = endsUnary tokens := by
  obtain ⟨front, token, rfl⟩ := (List.eq_nil_or_concat tokens).resolve_left some
  rw [List.concat_eq_append, ← List.append_assoc, endsUnary_snoc, endsUnary_snoc]
  cases front with
  | nil => simp [last, Sheet.isUnary, Sheet.isUnaryPlace, isOpening]
  | cons first rest => simp [List.getLast?_append, List.getLast?_cons]

theorem endsLine_enclose (outer tokens : List Token) (opening : Token)
    (last : outer.getLast? = some opening) (isOpening : opening.kind = .parenOpen) :
    endsLine (outer ++ tokens) = endsLine tokens := by
  rw [endsLine, List.getLast?_append, last]
  cases final : tokens.getLast? with
  | none => simp [endsLine, final, isLineComment_of_kind opening (by simp [isOpening])]
  | some token => simp [endsLine, final]

theorem MayTouch.enclose {sheet : Sheet} {outer tokens : List Token} {token : Token}
    (opening : Token) (last : outer.getLast? = some opening)
    (isOpening : opening.kind = .parenOpen) (some : tokens ≠ [])
    (touch : MayTouch sheet tokens token) : MayTouch sheet (outer ++ tokens) token := by
  rcases touch with punctuation | ⟨before, found, allowed⟩
  · exact .inl punctuation
  · refine .inr ⟨before, ?_, ?_⟩
    · simp [List.getLast?_append, found]
    · rw [endsUnary_enclose outer tokens opening last isOpening some]
      exact allowed

/-- Tokens that stand in parentheses by themselves may be put behind an opening one. -/
theorem Laid.enclose {sheet : Sheet} {outer inner : List Token} {chars content : List Char}
    (front : Laid sheet outer chars) (opening : Token) (last : outer.getLast? = some opening)
    (isOpening : opening.kind = .parenOpen) (gap : List Char)
    (blank : ∀ c ∈ gap, c = ' ' ∨ c = '\n') (back : Laid sheet inner content) :
    inner = [] ∧ content = [] ∨ Laid sheet (outer ++ inner) (chars ++ gap ++ content) := by
  have some : outer ≠ [] := by
    rintro rfl
    simp at last
  induction back with
  | nil => exact .inl ⟨rfl, rfl⟩
  | @snoc tokens content laid between token text spaces atStart spelling filled apart breaks ih =>
    right
    have ends (inner : List Token) := endsLine_enclose outer inner opening last isOpening
    rcases ih with ⟨rfl, rfl⟩ | laidThere
    · rw [atStart rfl]
      refine .snoc front gap token text blank (fun nothing => absurd nothing some) spelling filled
        ?_ (fun ending => by
          rw [← List.append_nil outer, ends] at ending
          exact absurd ending Bool.false_ne_true)
      intro _ _
      exact .inr ⟨opening, last, .inl isOpening⟩
    · have whole := Laid.snoc laidThere between token text spaces (by simp [some]) spelling filled
        (by
          intro _ tight
          by_cases first : tokens = []
          · subst first
            exact .inr ⟨opening, by simpa using last, .inl isOpening⟩
          · exact (apart first tight).enclose opening last isOpening first)
        (fun ending => breaks (ends tokens ▸ ending))
      simpa using whole

theorem Laying.writeInner {sheet : Sheet} {tokens inner : List Token} {w writer : Writer}
    (laying : Laying sheet tokens w) (opening : Token) (last : tokens.getLast? = some opening)
    (isOpening : opening.kind = .parenOpen) (content : Laying sheet inner writer)
    (inline : writer.inline = true) : Laying sheet (tokens ++ inner) (w.write writer.text) := by
  have some : tokens ≠ [] := by
    rintro rfl
    simp at last
  have written : Laid sheet (tokens ++ inner) (w.write writer.text).chars := by
    by_cases empty : writer.text = ""
    · have nothing : writer.chars = [] := by
        simpa [Writer.text] using congrArg String.toList empty
      rw [Writer.write, if_pos empty]
      rcases laying.laid.enclose opening last isOpening [] (by simp) content.laid with
        ⟨rfl, -⟩ | whole
      · simpa using laying.laid
      · simpa [nothing] using whole
    · rw [Writer.chars_write_gap _ w empty, Writer.text, String.toList_ofList]
      rcases laying.laid.enclose opening last isOpening w.gap (Writer.mem_gap w) content.laid with
        ⟨-, nothing⟩ | whole
      · exact absurd (by rw [Writer.text, nothing, String.ofList_nil]) empty
      · exact whole
  refine ⟨written, ?_, ?_, ?_⟩
  · intro _
    unfold Writer.write
    split
    · exact laying.content some
    · exact .inl rfl
  · intro nothing
    exact absurd (List.append_eq_nil_iff.1 nothing).1 some
  · intro ends
    rw [endsLine_enclose tokens inner opening last isOpening] at ends
    simp [(content.breaks ends).1] at inline

structure Inked (sheet : Sheet) (tokens : List Token) (w : Writer) : Prop
    extends Laying sheet tokens w where
  recalls : Recalls tokens w.last
  unary : w.lastUnary = endsUnary tokens

namespace Inked

variable {sheet : Sheet} {tokens : List Token} {w : Writer}

theorem blank (inline : Bool) : Inked sheet [] { inline } where
  laid := .nil
  content := by
    intro some
    exact absurd rfl some
  fresh := by
    intro _
    exact ⟨rfl, rfl, rfl, rfl⟩
  breaks := by simp [endsLine]
  recalls := .inl rfl
  unary := rfl

theorem mark {token : Token} (laying : Laying sheet (tokens ++ [token]) w) (unary : Bool)
    (same : unary = Sheet.isUnary token tokens.getLast?) :
    Inked sheet (tokens ++ [token]) (w.mark token unary) where
  laid := laying.laid
  content := laying.content
  fresh := laying.fresh
  breaks := laying.breaks_of_idles (.mark token unary w)
  recalls := .snoc tokens token
  unary := by
    rw [endsUnary_snoc, ← same]
    rfl

theorem punct (inked : Inked sheet tokens w) (token : Token)
    (isPunctuation : token.kind.isPunctuation = true) (filled : token.text ≠ "") :
    Inked sheet (tokens ++ [token]) (Sheet.punct token w) := by
  have other : token.kind ≠ .operator := by
    intro isOperator
    simp [isOperator, Token.Kind.isPunctuation] at isPunctuation
  have code : token.kind ≠ .comment := by
    intro isComment
    simp [isComment, Token.Kind.isPunctuation] at isPunctuation
  refine mark (inked.write token token.text (spelling_text token) filled
    (isLineComment_of_kind token code) ?_) false ?_
  · intro _ _
    exact .inl isPunctuation
  · rw [isUnary_of_kind token _ other]

theorem solid (inked : Inked sheet tokens w) (text : String) (token : Token)
    (spelling : Spelling token text) (filled : text ≠ "") (other : token.isLineComment = false) :
    Inked sheet (tokens ++ [token]) (sheet.solid text token w) := by
  unfold Sheet.solid
  simp only
  refine mark ?_ _ (inked.recalls.isUnary token)
  by_cases spaced : sheet.needsSpace w token = true
  · rw [if_pos spaced]
    refine inked.space.write token text spelling filled other ?_
    intro some tight
    exact absurd tight (w.space.gap_ne_nil (w.waits_space (inked.content some)))
  · rw [if_neg spaced]
    refine inked.write token text spelling filled other ?_
    intro _ _
    exact mayTouch_of_needsSpace sheet tokens w token inked.recalls inked.unary
      (by simpa using spaced)

theorem comment (inked : Inked sheet tokens w) (indent : Nat) (token : Token)
    (isComment : token.kind = .comment) (filled : token.text ≠ "")
    (atStart : w.last = none → indent = 0) (level : w.inline = true → token.isLineComment = false) :
    Inked sheet (tokens ++ [token]) (sheet.comment indent token w) := by
  have spelling := spelling_text token
  have unary : false = Sheet.isUnary token tokens.getLast? := by
    rw [isUnary_of_kind token _ (by simp [isComment])]
  have placed : Laying sheet tokens
        (if sheet.lineStarts.contains token.start then w.newline indent else w.space) ∧
      (tokens ≠ [] →
        (if sheet.lineStarts.contains token.start then w.newline indent else w.space).Waits) ∧
      (if sheet.lineStarts.contains token.start then w.newline indent else w.space).inline =
        w.inline := by
    split
    · exact ⟨inked.newline indent fun nothing => atStart (inked.recalls.eq_none_of_nil nothing),
        fun some => w.waits_newline indent (inked.content some), by simp⟩
    · exact ⟨inked.space, fun some => w.waits_space (inked.content some), by simp⟩
  unfold Sheet.comment
  simp only
  generalize (if sheet.lineStarts.contains token.start then w.newline indent else w.space) = u
    at placed
  obtain ⟨laying, waits, inline⟩ := placed
  have apart (some : tokens ≠ []) (tight : u.gap = []) : MayTouch sheet tokens token :=
    absurd tight (u.gap_ne_nil (waits some))
  split
  · rename_i isLine
    have lines : u.inline = false := by
      rw [inline, ← Bool.not_eq_true]
      intro onLine
      simp [level onLine] at isLine
    exact
      { laid := laying.laid_write token token.text spelling filled apart
        content := fun _ => .inl (by simp [Writer.endLineAfterComment, Writer.mark, Writer.write,
          filled, Writer.put])
        fresh := by simp
        breaks := fun _ => by
          rw [Writer.Breaks, Writer.pendingBreak_settle, Writer.write, if_neg filled]
          simp [Writer.endLineAfterComment, Writer.mark, Writer.put, Writer.inline_settle, lines]
        recalls := .snoc tokens token
        unary := by rw [endsUnary_snoc, ← unary]; rfl }
  · rename_i other
    exact mark (laying.write token token.text spelling filled (by simpa using other) apart) false
      unary

theorem silent {v : Writer} (inked : Inked sheet tokens w) (laying : Laying sheet tokens v)
    (last : v.last = w.last) (unary : v.lastUnary = w.lastUnary) : Inked sheet tokens v where
  toLaying := laying
  recalls := by
    rw [last]
    exact inked.recalls
  unary := unary.trans inked.unary

theorem comma (inked : Inked sheet tokens w) (token : Token) (isComma : token.kind = .comma)
    (text : token.text = ",") : Inked sheet (tokens ++ [token]) (Sheet.punct commaToken w) := by
  have written := inked.write token token.text (spelling_text token) (by rw [text]; decide)
    (isLineComment_of_kind token (by simp [isComma])) fun _ _ => .inl (by rw [isComma]; rfl)
  rw [text] at written
  refine ⟨⟨written.laid, written.content, written.fresh,
    written.breaks_of_idles (.mark commaToken false _)⟩, ?_, ?_⟩
  · exact .inr ⟨token, by simp, isComma, .inl rfl⟩
  · rw [endsUnary_snoc, isUnary_of_kind token _ (by simp [isComma])]
    rfl

theorem inlined {inner : List Token} {writer : Writer} (inked : Inked sheet tokens w)
    (role : Role) (indent : Nat) (first last : Token) (isFirst : first.kind = .parenOpen)
    (isLast : last.kind = .parenClose) (filledFirst : first.text ≠ "")
    (filledLast : last.text ≠ "") (content : Inked sheet inner writer)
    (inline : writer.inline = true) :
    Inked sheet (tokens ++ [first] ++ inner ++ [last])
      (sheet.token indent last
        ((((Sheet.punct first w).enter role).write writer.text).markAs closeToken).leave) := by
  have opened := inked.punct first (by rw [isFirst]; rfl) filledFirst
  have entered : Laying sheet (tokens ++ [first]) ((Sheet.punct first w).enter role) :=
    ⟨opened.laid, opened.content, opened.fresh, opened.breaks_of_idles (.enter role _)⟩
  have filled := entered.writeInner first (by simp) isFirst content.toLaying inline
  generalize ((Sheet.punct first w).enter role).write writer.text = v at filled
  have resumed : Laying sheet (tokens ++ [first] ++ inner) (v.markAs closeToken).leave :=
    ⟨filled.laid, filled.content, filled.fresh,
      filled.breaks_of_idles ((Writer.Idles.markAs closeToken v).trans (.leave _))⟩
  -- The parenthesis follows without a space, whatever the inner text ends with.
  have text : sheet.cased last (v.markAs closeToken).leave.last false = last.text := by
    rw [Sheet.cased, if_neg (by rw [isLast]; decide)]
  have tight : sheet.needsSpace (v.markAs closeToken).leave last = false := by
    simp [Sheet.needsSpace, Writer.markAs, Writer.leave, closeToken, Token.plain, isLast,
      Token.isComment]
  rw [Sheet.token, Sheet.word, if_neg (by simp [Token.isComment, isLast]), text, Sheet.solid, tight]
  refine mark (resumed.write last last.text (spelling_text last) filledLast
    (isLineComment_of_kind last (by simp [isLast])) ?_) _ ?_
  · intro _ _
    exact .inl (by rw [isLast]; rfl)
  · rw [isUnary_of_kind last _ (by simp [isLast]), isUnary_of_kind last _ (by simp [isLast])]

theorem draws {source : List Token} {marks : List Mark} {v : Writer} (inked : Inked sheet tokens w)
    (drawing : Draws sheet source marks w v)
    (unnamed : sheet.style.addColumnNameComments = false) (fits : ∀ mark ∈ marks, Fits mark)
    (level : w.inline = true → ∀ mark ∈ marks, mark.token.isLineComment = false) :
    Inked sheet (tokens ++ marks.map Mark.token) v := by
  induction drawing generalizing tokens with
  | done w => simpa using inked
  | append front back first second =>
    have middle := first inked (fun mark member => fits mark (List.mem_append_left _ member))
      fun inline mark member => level inline mark (List.mem_append_left _ member)
    have whole := second middle (fun mark member => fits mark (List.mem_append_right _ member))
      fun inline mark member =>
        level (front.inline.symm.trans inline) mark (List.mem_append_right _ member)
    simpa using whole
  | space w => simpa using inked.silent inked.space (by simp) (by simp)
  | newline indent w atStart =>
    have line := inked.newline indent fun nothing => atStart (inked.recalls.eq_none_of_nil nothing)
    simpa using inked.silent line (by simp) (by simp)
  | padTo column w => simpa using inked.silent (inked.padTo column) (by simp) (by simp)
  | parens roles w =>
    have same : Laying sheet tokens { w with parens := roles } :=
      ⟨inked.laid, inked.content, inked.fresh, inked.breaks_of_idles (.parens roles w)⟩
    simpa using inked.silent same rfl rfl
  | breaks w =>
    have same : Laying sheet tokens { w with broken := w.broken || w.inline } :=
      ⟨inked.laid, inked.content, inked.fresh, inked.breaks_of_idles (.breaking w)⟩
    simpa using inked.silent same rfl rfl
  | comment indent mark w isComment atStart =>
    have fit := fits mark (by simp)
    have kind : mark.token.kind = .comment := by
      rcases isComment with asked | isComment
      · rw [fit.kind, asked]
      · simpa [Token.isComment] using isComment
    exact inked.comment indent mark.token kind (fit.filled _ (spelling_text _)) atStart
      fun inline => level inline mark (by simp)
  | opening token w =>
    have fit := fits ⟨token, .parenOpen⟩ (by simp)
    exact inked.punct token (by rw [fit.kind]; rfl) (fit.filled _ (spelling_text _))
  | closing token w =>
    have fit := fits ⟨token, .parenClose⟩ (by simp)
    exact inked.punct token (by rw [fit.kind]; rfl) (fit.filled _ (spelling_text _))
  | comma token w isComma =>
    have fit := fits (.ofToken token) (by simp)
    exact inked.comma token isComma (fit.comma isComma)
  | leadingComma w =>
    have comma := inked.comma commaToken rfl rfl
    exact ⟨⟨comma.laid, comma.content, comma.fresh, comma.breaks_of_idles (.markAs openToken _)⟩,
      .inr ⟨commaToken, by simp [commaMark, Mark.ofToken], rfl, .inr rfl⟩, comma.unary⟩
  | solid text mark w isSolid spelling =>
    exact inked.solid text mark.token spelling ((fits mark (by simp)).filled text spelling)
      (by simp [Token.isLineComment, isSolid])
  | noted name copies w isName => exact absurd isName.1 (by simp [unnamed])
  | @inlined marks inner role indent first last w content unbroken ih =>
    have fitFirst := fits ⟨first, .parenOpen⟩ (by simp)
    have fitLast := fits ⟨last, .parenClose⟩ (by simp)
    have fitsInside (mark : Mark) (member : mark ∈ marks) : Fits mark :=
      fits mark (by simp [member])
    have within := ih (blank true) fitsInside fun _ mark member =>
      (fitsInside mark member).endsLine ▸ content.calm unbroken mark member
    have whole := inked.inlined role indent first last fitFirst.kind fitLast.kind
      (fitFirst.filled _ (spelling_text _)) (fitLast.filled _ (spelling_text _)) within
      content.inline
    simpa using whole

end Inked

/-- The text of a statement is made of the tokens that its tree shows, and of the token that
ends it. -/
theorem Sheet.laid_render (sheet : Sheet) (statement : Statement) (terminator : Option Token)
    (unnamed : sheet.style.addColumnNameComments = false)
    (fits : ∀ mark ∈ statement.trace.marks, Fits mark)
    (ends : ∀ token, terminator = some token → token.kind = .semicolon ∧ token.text ≠ "") :
    Laid sheet (statement.trace.marks.map Mark.token ++ terminator.toList)
      (sheet.render statement terminator).toList := by
  have inked := (Inked.blank false).draws (sheet.draws_finished statement) unnamed fits
    (by simp)
  rw [List.nil_append] at inked
  cases terminator with
  | none =>
    rw [show sheet.render statement none = (sheet.finished statement).text from rfl, Writer.text,
      String.toList_ofList]
    simpa using inked.laid
  | some token =>
    obtain ⟨isEnd, filled⟩ := ends token rfl
    have closed : Laying sheet (statement.trace.marks.map Mark.token)
        (if (sheet.finished statement).breakIndent.isSome then
          (sheet.finished statement).newline 0 else sheet.finished statement) := by
      split
      · exact inked.newline 0 fun _ => rfl
      · exact inked.toLaying
    have written := closed.write token token.text (spelling_text token) filled
      (isLineComment_of_kind token (by simp [isEnd])) fun _ _ => .inl (by rw [isEnd]; rfl)
    rw [show sheet.render statement (some token) =
      ((sheet.finished statement).terminate token.text).text from rfl, Writer.text,
      String.toList_ofList]
    exact written.laid

end SqlLayout.Layout
