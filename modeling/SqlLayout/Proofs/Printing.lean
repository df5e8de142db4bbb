import Mathlib.Data.List.Chain
import SqlLayout.Proofs.Advancing
import SqlLayout.Proofs.DrawingForms

/-! What a drawing leaves behind, piece by piece, whatever the style. Each piece is written for
a mark or shows the name of a column, and the line comments among the marks are all written, in
their order. Behind one of them the next piece starts a new line. On one line nothing could, so a
writer that has to stay on its line is broken by the first line comment or line break; what has
been written on one line has neither. -/
namespace SqlLayout

def Tree.Mark.endsLine (mark : Tree.Mark) : Bool :=
  mark.kind = .comment && mark.token.isLineComment

namespace Layout

open SqlLayout.Tree SqlLayout.Style

/-- A piece of a text, with the mark that it was written for. -/
structure Entry where
  piece : Piece
  origin : Option Mark

def Writes (mark : Mark) (text : String) : Prop :=
  Spelling mark.token text ∨ mark.token.kind = .comma ∧ text = ","

namespace Entry

def chars (entry : Entry) : List Char :=
  entry.piece.chars

def endsLine (entry : Entry) : Bool :=
  entry.origin.any Mark.endsLine

structure Genuine (sheet : Sheet) (source : List Token) (entry : Entry) : Prop where
  filled : entry.piece.text ≠ ""
  mark : ∀ mark, entry.origin = some mark → Writes mark entry.piece.text
  name : entry.origin = none →
    ∃ name, IsName sheet source name ∧ entry.piece.text = "/* " ++ name ++ " */"

/-- A line comment leaves the rest of its line empty. -/
def Apart (first second : Entry) : Prop :=
  first.endsLine = true → second.piece.lineBreak = true

end Entry

theorem isChain_of_calm {entries : List Entry}
    (calm : ∀ entry ∈ entries, entry.endsLine = false) : entries.IsChain Entry.Apart := by
  induction entries with
  | nil => exact List.IsChain.nil
  | cons first rest ih =>
    refine List.isChain_cons.2 ⟨?_, ih fun entry member => calm entry (by simp [member])⟩
    intro other _ endsLine
    rw [calm first (by simp)] at endsLine
    simp at endsLine

def origins (entries : List Entry) : List Mark :=
  entries.filterMap Entry.origin

@[simp] theorem origins_nil : origins [] = [] := rfl

@[simp] theorem origins_append (first second : List Entry) :
    origins (first ++ second) = origins first ++ origins second :=
  List.filterMap_append

/-- Nothing else than marks in their order, and no line comment is left out. -/
structure Records (marks : List Mark) (entries : List Entry) : Prop where
  order : (origins entries).Sublist marks
  lines : (origins entries).filter Mark.endsLine = marks.filter Mark.endsLine

namespace Records

theorem append {first second : List Mark} {front back : List Entry} (before : Records first front)
    (after : Records second back) : Records (first ++ second) (front ++ back) where
  order := by
    rw [origins_append]
    exact before.order.append after.order
  lines := by
    rw [origins_append, List.filter_append, List.filter_append, before.lines, after.lines]

theorem nil {marks : List Mark} (others : ∀ mark ∈ marks, mark.endsLine = false) :
    Records marks [] where
  order := List.nil_sublist marks
  lines := by
    rw [origins_nil, List.filter_nil, eq_comm, List.filter_eq_nil_iff]
    simpa using others

theorem single (mark : Mark) (piece : Piece) : Records [mark] [⟨piece, some mark⟩] where
  order := List.Sublist.refl _
  lines := rfl

end Records

namespace Writer

def Breaks (w : Writer) : Prop :=
  w.settle.pendingBreak = true

theorem pendingBreak_settle (w : Writer) :
    w.settle.pendingBreak =
      (w.pendingBreak || (w.breakIndent.isSome && !w.inline && w.lineHasContent)) := by
  unfold settle
  cases found : w.breakIndent with
  | none => simp
  | some indent =>
    cases inline : w.inline with
    | true => simp [newline, inline, space, spaces, apply_ite Writer.pendingBreak]
    | false => simp [newline, inline]

theorem broken_settle (w : Writer) : w.settle.broken = w.broken := by
  unfold settle newline space spaces
  grind

/-- Nothing is written on the way from a writer to another one, and no break is forgotten. -/
structure Idles (w v : Writer) : Prop where
  pieces : v.pieces = w.pieces
  inline : v.inline = w.inline
  broken : v.broken = false → w.broken = false
  breaks : w.inline = false → w.Breaks → v.Breaks
  level : w.inline = true → v.pendingBreak = w.pendingBreak
  fresh : w.pendingBreak = false → w.lineHasContent = false →
    v.pendingBreak = false ∧ v.lineHasContent = false

namespace Idles

variable {u v w : Writer}

theorem refl (w : Writer) : Idles w w :=
  ⟨rfl, rfl, id, fun _ breaks => breaks, fun _ => rfl, fun unbroken empty => ⟨unbroken, empty⟩⟩

theorem trans (first : Idles w v) (second : Idles v u) : Idles w u where
  pieces := second.pieces.trans first.pieces
  inline := second.inline.trans first.inline
  broken := fun whole => first.broken (second.broken whole)
  breaks := fun lines breaks =>
    second.breaks (first.inline.trans lines) (first.breaks lines breaks)
  level := fun inline => (second.level (first.inline.trans inline)).trans (first.level inline)
  fresh := fun unbroken empty =>
    second.fresh (first.fresh unbroken empty).1 (first.fresh unbroken empty).2

theorem of_eq (pieces : v.pieces = w.pieces) (inline : v.inline = w.inline)
    (broken : v.broken = false → w.broken = false) (pending : v.pendingBreak = w.pendingBreak)
    (content : v.lineHasContent = w.lineHasContent) (indent : v.breakIndent = w.breakIndent) :
    Idles w v where
  pieces := pieces
  inline := inline
  broken := broken
  breaks := by
    intro _ breaks
    rwa [Breaks, pendingBreak_settle, pending, content, indent, inline, ← pendingBreak_settle]
  level := fun _ => pending
  fresh := by
    rw [pending, content]
    exact fun unbroken empty => ⟨unbroken, empty⟩

theorem space (w : Writer) : Idles w w.space := by
  refine of_eq (pieces_spaces 1 w) ?_ ?_ ?_ ?_ ?_ <;> unfold Writer.space spaces <;> grind

theorem padTo (column : Nat) (w : Writer) : Idles w (w.padTo column) := by
  refine of_eq (pieces_padTo column w) ?_ ?_ ?_ ?_ ?_ <;>
    unfold Writer.padTo Writer.space spaces <;> grind

theorem newline (indent : Nat) (w : Writer) : Idles w (w.newline indent) := by
  cases inline : w.inline with
  | true =>
    rw [Writer.newline, if_pos inline]
    have unasked : Idles w { w with breakIndent := none } :=
      ⟨rfl, rfl, id, fun lines => by simp [inline] at lines, fun _ => rfl,
        fun unbroken empty => ⟨unbroken, empty⟩⟩
    exact unasked.trans (space _)
  | false =>
    rw [Writer.newline, if_neg (by simp [inline])]
    refine ⟨rfl, rfl, id, ?_, fun level => by simp [inline] at level, ?_⟩
    · intro _ breaks
      rw [Breaks, pendingBreak_settle] at breaks ⊢
      simp only [Option.isSome_none, Bool.false_and, Bool.or_false]
      grind
    · intro unbroken empty
      simp [unbroken, empty]

theorem mark (token : Token) (unary : Bool) (w : Writer) : Idles w (w.mark token unary) :=
  of_eq rfl rfl id rfl rfl rfl

theorem markAs (token : Token) (w : Writer) : Idles w (w.markAs token) :=
  of_eq rfl rfl id rfl rfl rfl

theorem parens (roles : List Role) (w : Writer) : Idles w { w with parens := roles } :=
  of_eq rfl rfl id rfl rfl rfl

theorem enter (role : Role) (w : Writer) : Idles w (w.enter role) :=
  parens (role :: w.parens) w

theorem leave (w : Writer) : Idles w w.leave :=
  parens w.parens.tail w

theorem breaking (w : Writer) : Idles w { w with broken := w.broken || w.inline } := by
  refine of_eq rfl rfl ?_ rfl rfl rfl
  intro whole
  simp only [Bool.or_eq_false_iff] at whole
  exact whole.1

end Idles

end Writer

@[simp] theorem Sheet.inline_word (sheet : Sheet) (indent : Nat) (beforeCall : Bool)
    (token : Token) (w : Writer) : (sheet.word indent beforeCall token w).inline = w.inline := by
  unfold word comment solid
  simp only [Writer.mark, Writer.endLineAfterComment]
  repeat' split
  all_goals simp

theorem Draws.inline {sheet : Sheet} {source : List Token} {marks : List Mark} {w v : Writer}
    (drawing : Draws sheet source marks w v) : v.inline = w.inline := by
  induction drawing with
  | append front back first second => exact second.trans first
  | comment indent mark w =>
    unfold Sheet.comment
    simp only [Writer.mark, Writer.endLineAfterComment]
    repeat' split
    all_goals simp
  | solid text mark w =>
    simp only [Sheet.solid, Writer.mark, Writer.inline_write]
    split <;> simp
  | inlined role indent first last w =>
    rw [Sheet.token, Sheet.inline_word]
    simp [Writer.leave, Writer.markAs, Writer.enter, Sheet.punct, Writer.mark]
  | _ => simp [Sheet.punct, Writer.mark, Writer.markAs]

structure Printed (sheet : Sheet) (source : List Token) (entries : List Entry) (w : Writer) :
    Prop where
  chars : w.chars = entries.flatMap Entry.chars
  genuine : ∀ entry ∈ entries, entry.Genuine sheet source
  fresh : entries = [] → w.pendingBreak = false ∧ w.lineHasContent = false
  start : ∀ entry ∈ entries.head?, entry.piece.lineBreak = false
  apart : w.inline = false → entries.IsChain Entry.Apart
  last : w.inline = false → ∀ entry ∈ entries.getLast?, entry.endsLine = true → w.Breaks
  /-- An inline writer starts no lines, and has no line comment until it is broken. -/
  level : w.inline = true →
    w.pendingBreak = false ∧ ∀ entry ∈ entries, entry.piece.lineBreak = false
  whole : w.inline = true → w.broken = false →
    ∀ entry ∈ entries, entry.endsLine = false ∧ '\n' ∉ entry.piece.text.toList

namespace Printed

variable {sheet : Sheet} {source : List Token} {entries : List Entry} {w v : Writer}

theorem blank (sheet : Sheet) (source : List Token) (inline : Bool) :
    Printed sheet source [] { inline } where
  chars := rfl
  genuine := by simp
  fresh := fun _ => ⟨rfl, rfl⟩
  start := by simp
  apart := fun _ => List.IsChain.nil
  last := by simp
  level := fun _ => ⟨rfl, by simp⟩
  whole := by simp

theorem idle (printed : Printed sheet source entries w) (idles : w.Idles v) :
    Printed sheet source entries v where
  chars := (Writer.chars_eq_of_pieces idles.pieces).trans printed.chars
  genuine := printed.genuine
  fresh := fun nothing => idles.fresh (printed.fresh nothing).1 (printed.fresh nothing).2
  start := printed.start
  apart := fun lines => printed.apart (idles.inline.symm.trans lines)
  last := by
    intro lines entry final ends
    have linesBefore := idles.inline.symm.trans lines
    exact idles.breaks linesBefore (printed.last linesBefore entry final ends)
  level := by
    intro inline
    have inlineBefore := idles.inline.symm.trans inline
    exact ⟨(idles.level inlineBefore).trans (printed.level inlineBefore).1,
      (printed.level inlineBefore).2⟩
  whole := fun inline whole =>
    printed.whole (idles.inline.symm.trans inline) (idles.broken whole)

def next (w : Writer) (text : String) (origin : Option Mark) : Entry :=
  ⟨⟨w.settle.pendingBreak, w.settle.pendingSpaces, text⟩, origin⟩

theorem extend (printed : Printed sheet source entries w) (first : Entry) (others : List Entry)
    (chars : v.chars = w.chars ++ (first :: others).flatMap Entry.chars)
    (genuine : ∀ entry ∈ first :: others, entry.Genuine sheet source)
    (settled : first.piece.lineBreak = w.settle.pendingBreak)
    (onLine : ∀ entry ∈ others, entry.piece.lineBreak = false)
    (inline : v.inline = w.inline) (unbroken : v.pendingBreak = false)
    (apart : (first :: others).IsChain Entry.Apart)
    (ends : w.inline = false → ∀ entry ∈ (first :: others).getLast?,
      entry.endsLine = true → v.Breaks)
    (whole : w.inline = true → v.broken = false → w.broken = false ∧
      ∀ entry ∈ first :: others, entry.endsLine = false ∧ '\n' ∉ entry.piece.text.toList) :
    Printed sheet source (entries ++ first :: others) v where
  chars := by rw [chars, printed.chars, List.flatMap_append]
  genuine := by
    intro entry member
    rcases List.mem_append.1 member with before | here
    · exact printed.genuine entry before
    · exact genuine entry here
  fresh := by simp
  start := by
    intro entry head
    cases entries with
    | nil =>
      obtain rfl : first = entry := by simpa using head
      obtain ⟨unasked, empty⟩ := printed.fresh rfl
      rw [settled, Writer.pendingBreak_settle, unasked, empty]
      simp
    | cons other rest => exact printed.start entry (by simpa using head)
  apart := by
    intro lines
    have linesBefore := inline.symm.trans lines
    refine List.isChain_append.2 ⟨printed.apart linesBefore, apart, ?_⟩
    intro entry final other head endsLine
    obtain rfl : first = other := by simpa using head
    exact settled.trans (printed.last linesBefore entry final endsLine)
  last := by
    intro lines entry final endsLine
    refine ends (inline.symm.trans lines) entry ?_ endsLine
    simpa [List.getLast?_append] using final
  level := by
    intro level
    have levelBefore := inline.symm.trans level
    obtain ⟨none, flat⟩ := printed.level levelBefore
    refine ⟨unbroken, ?_⟩
    intro entry member
    rcases List.mem_append.1 member with before | here
    · exact flat entry before
    · rcases List.mem_cons.1 here with rfl | later
      · rw [settled, Writer.pendingBreak_settle, none, levelBefore]
        simp
      · exact onLine entry later
  whole := by
    intro level unbroken
    have levelBefore := inline.symm.trans level
    obtain ⟨kept, plain⟩ := whole levelBefore unbroken
    intro entry member
    rcases List.mem_append.1 member with before | here
    · exact printed.whole levelBefore kept entry before
    · exact plain entry here

theorem write (printed : Printed sheet source entries w) (text : String) (origin : Option Mark)
    (genuine : (next w text origin).Genuine sheet source)
    (pieces : v.pieces = (w.settle.put text).pieces) (inline : v.inline = w.inline)
    (unbroken : v.pendingBreak = false)
    (broken : v.broken = false → (w.settle.put text).broken = false)
    (ends : (next w text origin).endsLine = true →
      (w.inline = false → v.Breaks) ∧ (w.inline = true → v.broken = true)) :
    Printed sheet source (entries ++ [next w text origin]) v := by
  refine printed.extend (next w text origin) [] ?_ (by simpa using genuine) rfl (by simp) inline
    unbroken (List.isChain_singleton _) ?_ ?_
  · rw [Writer.chars_eq_of_pieces pieces, Writer.chars_put,
      Writer.chars_eq_of_pieces (Writer.pieces_settle w), List.flatMap_singleton]
    rfl
  · intro lines entry final endsLine
    obtain rfl : next w text origin = entry := by simpa using final
    exact (ends endsLine).1 lines
  · intro level whole
    have kept := broken whole
    rw [Writer.put, Writer.broken_settle, Writer.inline_settle, level] at kept
    simp only [Bool.true_and, Bool.or_eq_false_iff] at kept
    refine ⟨kept.1, ?_⟩
    intro entry here
    rw [List.mem_singleton.1 here]
    refine ⟨?_, by simpa [next] using kept.2⟩
    rw [← Bool.not_eq_true]
    intro endsLine
    rw [(ends endsLine).2 level] at whole
    simp at whole

theorem ink (printed : Printed sheet source entries w) (text : String) (mark : Mark)
    (writes : Writes mark text) (other : mark.endsLine = false)
    (idles : (w.write text).Idles v) :
    ∃ more, Printed sheet source (entries ++ more) v ∧ Records [mark] more := by
  by_cases empty : text = ""
  · rw [Writer.write, if_pos empty] at idles
    exact ⟨[], by simpa using printed.idle idles, .nil (by simpa using other)⟩
  · rw [Writer.write, if_neg empty] at idles
    have genuine : (next w text (some mark)).Genuine sheet source :=
      ⟨empty, fun _ same => Option.some.inj same ▸ writes, fun none => by simp [next] at none⟩
    have written : Printed sheet source (entries ++ [next w text (some mark)])
        (w.settle.put text) := by
      refine printed.write text (some mark) genuine rfl (Writer.inline_settle w) rfl id ?_
      intro endsLine
      simp [next, Entry.endsLine, other] at endsLine
    exact ⟨_, written.idle idles, .single mark _⟩

theorem note (printed : Printed sheet source entries w) (name : String)
    (isName : IsName sheet source name) (idles : (w.write ("/* " ++ name ++ " */")).Idles v) :
    ∃ entry, Printed sheet source (entries ++ [entry]) v ∧ entry.origin = none := by
  have filled : "/* " ++ name ++ " */" ≠ "" := by
    intro empty
    simpa using congrArg String.toList empty
  rw [Writer.write, if_neg filled] at idles
  have genuine : (next w ("/* " ++ name ++ " */") none).Genuine sheet source :=
    ⟨filled, fun _ same => by simp [next] at same, fun _ => ⟨name, isName, rfl⟩⟩
  have written := printed.write _ none genuine rfl (Writer.inline_settle w) rfl id
    (by simp [next, Entry.endsLine])
  exact ⟨_, written.idle idles, rfl⟩

theorem comment (printed : Printed sheet source entries w) (indent : Nat) (mark : Mark) :
    ∃ more, Printed sheet source (entries ++ more) (sheet.comment indent mark.token w) ∧
      Records [mark] more := by
  have placed : w.Idles
      (if sheet.lineStarts.contains mark.token.start then w.newline indent else w.space) := by
    split
    · exact .newline indent w
    · exact .space w
  unfold Sheet.comment
  simp only
  generalize (if sheet.lineStarts.contains mark.token.start then w.newline indent else w.space) = u
    at placed
  have ready := printed.idle placed
  split
  · rename_i isLine
    have filled : mark.token.text ≠ "" := by
      intro empty
      simp [Token.isLineComment, empty] at isLine
    rw [Writer.write, if_neg filled]
    have genuine : (next u mark.token.text (some mark)).Genuine sheet source :=
      ⟨filled, fun _ same => Option.some.inj same ▸ .inl (spelling_text mark.token),
        fun none => by simp [next] at none⟩
    refine ⟨_, ready.write mark.token.text (some mark) genuine rfl (Writer.inline_settle u) rfl
      ?_ ?_, .single mark _⟩
    · intro whole
      simp only [Writer.endLineAfterComment, Bool.or_eq_false_iff] at whole
      exact whole.1
    · intro _
      refine ⟨fun lines => ?_, fun inline => ?_⟩
      · rw [Writer.Breaks, Writer.pendingBreak_settle]
        simp [Writer.endLineAfterComment, Writer.mark, Writer.put, Writer.inline_settle, lines]
      · simp [Writer.endLineAfterComment, Writer.mark, Writer.put, Writer.inline_settle, inline]
  · rename_i notLine
    refine ready.ink mark.token.text mark (.inl (spelling_text mark.token)) ?_ (.mark _ _ _)
    simp [Mark.endsLine, notLine]

theorem solid (printed : Printed sheet source entries w) (text : String) (mark : Mark)
    (isSolid : mark.token.isComment = false) (spelling : Spelling mark.token text) :
    ∃ more, Printed sheet source (entries ++ more) (sheet.solid text mark.token w) ∧
      Records [mark] more := by
  unfold Sheet.solid
  simp only
  have placed : w.Idles (if sheet.needsSpace w mark.token then w.space else w) := by
    split
    · exact .space w
    · exact .refl w
  refine (printed.idle placed).ink text mark (.inl spelling) ?_ (.mark _ _ _)
  simp [Mark.endsLine, Token.isLineComment, isSolid]

theorem word (printed : Printed sheet source entries w) (indent : Nat) (beforeCall : Bool)
    (mark : Mark) :
    ∃ more, Printed sheet source (entries ++ more)
      (sheet.word indent beforeCall mark.token w) ∧ Records [mark] more := by
  unfold Sheet.word
  split
  · exact printed.comment indent mark
  · rename_i isSolid
    exact printed.solid _ mark (by simpa using isSolid)
      (sheet.spelling_cased mark.token w.last beforeCall)

theorem enclose (printed : Printed sheet source entries w) {within : List Entry}
    (content : Printed sheet source within v) (inline : v.inline = true)
    (unbroken : v.broken = false) :
    ∃ more, Printed sheet source (entries ++ more) (w.write v.text) ∧
      origins more = origins within := by
  have level := (content.level inline).2
  have plain := content.whole inline unbroken
  cases within with
  | nil =>
    have empty : v.text = "" := by rw [Writer.text, content.chars]; rfl
    rw [Writer.write, if_pos empty]
    exact ⟨[], by simpa using printed, rfl⟩
  | cons first rest =>
    have filled : v.text ≠ "" := by
      intro empty
      have nothing : v.chars = [] := by
        simpa [Writer.text] using congrArg String.toList empty
      rw [content.chars, List.flatMap_cons, List.append_eq_nil_iff, Entry.chars, Piece.chars,
        List.append_eq_nil_iff] at nothing
      exact (content.genuine first (by simp)).filled (by simpa using nothing.1.2)
    -- The first piece takes over what separates the whole text from what stands before it.
    let moved : Entry := ⟨⟨w.settle.pendingBreak, w.settle.pendingSpaces + first.piece.spaces,
      first.piece.text⟩, first.origin⟩
    have separated : moved.chars =
        (Piece.mk w.settle.pendingBreak w.settle.pendingSpaces "").separator ++ first.chars := by
      have flat := level first (by simp)
      simp [moved, Entry.chars, Piece.chars, Piece.separator, flat,
        ← List.replicate_append_replicate]
    have calm : ∀ entry ∈ moved :: rest,
        entry.endsLine = false ∧ '\n' ∉ entry.piece.text.toList := by
      intro entry member
      rcases List.mem_cons.1 member with rfl | later
      · exact plain first (by simp)
      · exact plain entry (List.mem_cons_of_mem first later)
    rw [Writer.write, if_neg filled]
    refine ⟨moved :: rest, printed.extend moved rest ?_ ?_ rfl ?_ (Writer.inline_settle w) rfl ?_
      ?_ ?_, rfl⟩
    · rw [Writer.chars_put, Writer.chars_eq_of_pieces (Writer.pieces_settle w), Piece.chars,
        Writer.text, String.toList_ofList, content.chars, List.flatMap_cons, List.flatMap_cons,
        separated, List.append_assoc]
      rfl
    · intro entry member
      rcases List.mem_cons.1 member with rfl | later
      · have genuine := content.genuine first (by simp)
        exact ⟨genuine.filled, genuine.mark, genuine.name⟩
      · exact content.genuine entry (List.mem_cons_of_mem first later)
    · exact fun entry later => level entry (List.mem_cons_of_mem first later)
    · exact isChain_of_calm fun entry member => (calm entry member).1
    · intro _ entry final endsLine
      rw [(calm entry (List.mem_of_getLast? final)).1] at endsLine
      simp at endsLine
    · intro level whole
      rw [Writer.put, Writer.broken_settle] at whole
      exact ⟨(Bool.or_eq_false_iff.1 whole).1, calm⟩

/-- A drawing leaves its entries behind those that were there before. -/
theorem draws {marks : List Mark} (printed : Printed sheet source entries w)
    (drawing : Draws sheet source marks w v) :
    ∃ more, Printed sheet source (entries ++ more) v ∧ Records marks more := by
  -- A step that writes nothing adds nothing.
  have rests {entries : List Entry} {w v : Writer} (printed : Printed sheet source entries w)
      (idles : w.Idles v) :
      ∃ more, Printed sheet source (entries ++ more) v ∧ Records [] more :=
    ⟨[], by simpa using printed.idle idles, .nil (by simp)⟩
  induction drawing generalizing entries with
  | done w => exact rests printed (.refl w)
  | append front back first second =>
    obtain ⟨before, middle, recorded⟩ := first printed
    obtain ⟨after, whole, rest⟩ := second middle
    exact ⟨before ++ after, by simpa using whole, recorded.append rest⟩
  | space w => exact rests printed (.space w)
  | newline indent w => exact rests printed (.newline indent w)
  | padTo column w => exact rests printed (.padTo column w)
  | parens roles w => exact rests printed (.parens roles w)
  | breaks w => exact rests printed (.breaking w)
  | comment indent mark w => exact printed.comment indent mark
  | opening token w =>
    exact printed.ink token.text ⟨token, .parenOpen⟩ (.inl (spelling_text token)) rfl (.mark _ _ _)
  | closing token w =>
    exact printed.ink token.text ⟨token, .parenClose⟩ (.inl (spelling_text token)) rfl
      (.mark _ _ _)
  | comma token w isComma =>
    exact printed.ink "," (.ofToken token) (.inr ⟨isComma, rfl⟩)
      (by simp [Mark.endsLine, Mark.ofToken, isComma]) (.mark _ _ _)
  | leadingComma w =>
    exact printed.ink "," commaMark (.inr ⟨rfl, rfl⟩) rfl
      ((Writer.Idles.mark _ _ _).trans (.markAs _ _))
  | solid text mark w isSolid spelling => exact printed.solid text mark isSolid spelling
  | noted name copies w isName same =>
    obtain ⟨entry, written, unmarked⟩ := printed.note name isName
      ((Writer.Idles.space _).trans (.markAs _ _))
    have blocks : ∀ mark ∈ copies, mark.endsLine = false := by
      intro mark member
      simp [Mark.endsLine, Token.isLineComment, (same mark member).2, List.isPrefixOf]
    refine ⟨[entry], written, ?_⟩
    have none : origins [entry] = [] := by simp [origins, unmarked]
    exact ⟨by simp [none], by rw [none]; exact (Records.nil blocks).lines⟩
  | @inlined marks inner role indent first last w content whole ih =>
    obtain ⟨before, opened, recordsOpening⟩ := printed.ink first.text ⟨first, .parenOpen⟩
      (.inl (spelling_text first)) rfl
      ((Writer.Idles.mark first false (w.write first.text)).trans (.enter role _))
    obtain ⟨within, inside, recorded⟩ := ih (blank sheet source true)
    obtain ⟨moved, enclosed, sameOrigins⟩ := opened.enclose inside content.inline whole
    have resumed := enclosed.idle ((Writer.Idles.markAs closeToken _).trans (.leave _))
    obtain ⟨after, closed, recordsClosing⟩ := resumed.word indent false ⟨last, .parenClose⟩
    have recordsInside : Records marks moved :=
      ⟨sameOrigins ▸ recorded.order, by rw [sameOrigins]; exact recorded.lines⟩
    refine ⟨before ++ moved ++ after, ?_, ?_⟩
    · rw [← List.append_assoc, ← List.append_assoc]
      exact closed
    · exact (recordsOpening.append recordsInside).append recordsClosing

end Printed

namespace Sheet

theorem printed_render (sheet : Sheet) (statement : Statement) (terminator : Option Token)
    (ends : ∀ token, terminator = some token → token.kind = .semicolon) :
    ∃ entries : List Entry,
      (sheet.render statement terminator).toList = entries.flatMap Entry.chars ∧
      (∀ entry ∈ entries, entry.Genuine sheet statement.collect) ∧
      (∀ entry ∈ entries.head?, entry.piece.lineBreak = false) ∧
      entries.IsChain Entry.Apart ∧
      Records (statement.trace.marks ++ terminator.toList.map .ofToken) entries := by
  obtain ⟨entries, printed, records⟩ :=
    (Printed.blank sheet statement.collect false).draws (sheet.draws_finished statement)
  rw [List.nil_append] at printed
  have finished (w : Writer) (lines : w.inline = false) {entries : List Entry}
      (printed : Printed sheet statement.collect entries w) :
      w.text.toList = entries.flatMap Entry.chars ∧
        (∀ entry ∈ entries, entry.Genuine sheet statement.collect) ∧
        (∀ entry ∈ entries.head?, entry.piece.lineBreak = false) ∧
        entries.IsChain Entry.Apart := by
    rw [Writer.text, String.toList_ofList]
    exact ⟨printed.chars, printed.genuine, printed.start, printed.apart lines⟩
  have lines : (sheet.finished statement).inline = false :=
    (sheet.draws_finished statement).inline
  cases terminator with
  | none =>
    obtain ⟨text, genuine, start, apart⟩ := finished _ lines printed
    exact ⟨entries, text, genuine, start, apart, by simpa using records⟩
  | some token =>
    have closed : (sheet.finished statement).Idles
        (if (sheet.finished statement).breakIndent.isSome then
          (sheet.finished statement).newline 0 else sheet.finished statement) := by
      split
      · exact .newline 0 _
      · exact .refl _
    have other : (Mark.ofToken token).endsLine = false := by
      simp [Mark.endsLine, Mark.ofToken, ends token rfl]
    obtain ⟨more, written, last⟩ := (printed.idle closed).ink token.text (.ofToken token)
      (.inl (spelling_text token)) other (.refl _)
    have linesThere : ((sheet.finished statement).terminate token.text).inline = false := by
      rw [Writer.terminate, Writer.inline_write, closed.inline, lines]
    obtain ⟨text, genuine, start, apart⟩ := finished _ linesThere written
    exact ⟨entries ++ more, text, genuine, start, apart, records.append last⟩

end Sheet

/-- What was drawn on one line has no line comment, unless the writer was broken on the way. -/
theorem Draws.calm {sheet : Sheet} {source : List Token} {marks : List Mark} {inner : Writer}
    (content : Draws sheet source marks { inline := true } inner) (whole : inner.broken = false)
    (mark : Mark) (member : mark ∈ marks) : mark.endsLine = false := by
  obtain ⟨entries, printed, records⟩ := (Printed.blank sheet source true).draws content
  rw [List.nil_append] at printed
  have calm := printed.whole content.inline whole
  by_contra ends
  have listed : mark ∈ (origins entries).filter Mark.endsLine := by
    rw [records.lines]
    exact List.mem_filter.2 ⟨member, by simpa using ends⟩
  obtain ⟨shown, endsLine⟩ := List.mem_filter.1 listed
  obtain ⟨entry, inside, origin⟩ := List.mem_filterMap.1 shown
  have none := (calm entry inside).1
  rw [Entry.endsLine, origin] at none
  simp [endsLine] at none

namespace Sheet

theorem flat_of_onOneLine? (sheet : Sheet) (height : Nat) (body : Statement) (text : String)
    (low : body.height < height)
    (found : sheet.onOneLine? (sheet.painter height) body = some text) :
    '\n' ∉ text.toList ∧ text.length ≤ sheet.width ∧
      ∀ mark ∈ body.trace.marks, mark.endsLine = false := by
  unfold onOneLine? at found
  simp only at found
  split at found
  · simp at found
  rename_i fits
  obtain rfl := Option.some.inj found
  simp only [Bool.or_eq_true, decide_eq_true_eq, not_or, Bool.not_eq_true, Nat.not_lt] at fits
  have drawing := (paints_painter sheet body.collect height).statement 0 body { inline := true }
    low (List.Subset.refl _) fun _ => ⟨rfl, rfl⟩
  obtain ⟨entries, printed, -⟩ := (Printed.blank sheet body.collect true).draws drawing
  rw [List.nil_append] at printed
  have calm := printed.whole drawing.inline fits.1
  have flat := (printed.level drawing.inline).2
  refine ⟨?_, ?_, ?_⟩
  · rw [Writer.text, String.toList_ofList, printed.chars]
    intro member
    obtain ⟨entry, inside, here⟩ := List.mem_flatMap.1 member
    rw [Entry.chars, Piece.chars, Piece.separator, if_neg (by simp [flat entry inside]),
      List.nil_append, List.mem_append] at here
    rcases here with spaces | shown
    · exact absurd (List.eq_of_mem_replicate spaces) (by decide)
    · exact (calm entry inside).2 shown
  · rw [Writer.text, String.length_ofList]
    exact fits.2
  · exact drawing.calm fits.1

end Sheet

end Layout

end SqlLayout
