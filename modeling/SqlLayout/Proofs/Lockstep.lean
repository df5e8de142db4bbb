import SqlLayout.Proofs.Drawing
import SqlLayout.Proofs.Rewalking

/-! Two writers in lockstep: one draws a tree, the other the same tree with twins in the place of
its tokens. As long as the texts of a token and of its twin have the same lines, however the case
of their letters is settled, and a comment begins a line on both sides or on neither, both do the
same, blank by blank. So the marks of the tree are written one by one on both sides, and each of
them in the same case. Whether a statement fits on one line is decided alike, since a trial on one
line is in lockstep too. Runs, groups and CASE expressions keep writers in lockstep; clauses and
statements follow elsewhere. -/
namespace SqlLayout.Layout

open SqlLayout.Tree SqlLayout.Style

def SameLines (first second : List Char) : Prop :=
  second.map (fun c => c == '\n') = first.map fun c => c == '\n'

namespace SameLines

variable {first second : List Char}

theorem refl (chars : List Char) : SameLines chars chars := rfl

theorem length (same : SameLines first second) : second.length = first.length := by
  simpa using congrArg List.length same

theorem append {front back : List Char} (same : SameLines first second)
    (onward : SameLines front back) : SameLines (first ++ front) (second ++ back) := by
  rw [SameLines, List.map_append, List.map_append, same, onward]

theorem breaks (same : SameLines first second) : second.contains '\n' = first.contains '\n' := by
  have any (chars : List Char) :
      chars.contains '\n' = (chars.map fun c => c == '\n').any id := by
    rw [List.any_map, List.contains_eq_any_beq]
    exact congrArg chars.any (funext fun c => BEq.comm)
  rw [any, any, same]

theorem columnAfter {text twin : String} (same : SameLines text.toList twin.toList)
    (column : Nat) : Writer.columnAfter column twin = Writer.columnAfter column text := by
  have tail (chars : List Char) : (chars.takeWhile (· ≠ '\n')).length =
      ((chars.map fun c => c == '\n').takeWhile (!·)).length := by
    rw [List.takeWhile_map, List.length_map]
    refine congrArg (fun property => (chars.takeWhile property).length) (funext fun c => ?_)
    by_cases line : c = '\n' <;> simp [line]
  simp only [Writer.columnAfter, same.breaks, same.length, tail, List.map_reverse]
  rw [same]

theorem eq_empty {text twin : String} (same : SameLines text.toList twin.toList) :
    twin = "" ↔ text = "" := by
  rw [← String.toList_eq_nil_iff, ← String.toList_eq_nil_iff, ← List.length_eq_zero_iff,
    ← List.length_eq_zero_iff, same.length]

end SameLines

namespace Writer

def redone (last : Option Token) (pieces : List Piece) (w : Writer) : Writer :=
  { w with last := last, pieces := pieces }

theorem redone_newline (last : Option Token) (pieces : List Piece) (indent : Nat) (w : Writer) :
    (w.redone last pieces).newline indent = (w.newline indent).redone last pieces := by
  obtain ⟨inline, broken, before, unary, written, spaces, line, content⟩ := w
  cases inline <;> cases content <;> rfl

/-- What changes a writer without a look at what it remembers and at what it has written. -/
structure Quiet (change : Writer → Writer) : Prop where
  last : ∀ w, (change w).last = w.last
  pieces : ∀ w, (change w).pieces = w.pieces
  redone : ∀ last pieces w, change (w.redone last pieces) = (change w).redone last pieces

theorem quiet_id : Quiet fun w => w :=
  ⟨fun _ => rfl, fun _ => rfl, fun _ _ _ => rfl⟩

theorem quiet_space : Quiet space where
  last := last_space
  pieces := pieces_spaces 1
  redone := by
    rintro last pieces ⟨inline, broken, before, unary, written, spaces, line, content⟩
    cases content <;> rfl

theorem quiet_newline (indent : Nat) : Quiet (newline indent) :=
  ⟨last_newline indent, pieces_newline indent,
    fun last pieces w => redone_newline last pieces indent w⟩

theorem quiet_padTo (column : Nat) : Quiet (padTo column) where
  last := last_padTo column
  pieces := pieces_padTo column
  redone := by
    intro last pieces w
    unfold padTo
    rw [show (w.redone last pieces).inline = w.inline from rfl,
      show (w.redone last pieces).lineHasContent = w.lineHasContent from rfl,
      show (w.redone last pieces).column = w.column from rfl]
    split
    · exact quiet_space.redone last pieces w
    · split <;> rfl

theorem quiet_settle : Quiet settle where
  last := by
    intro w
    unfold settle
    split
    · exact last_newline _ w
    · rfl
  pieces := pieces_settle
  redone := by
    intro last pieces w
    unfold settle
    cases line : w.breakIndent with
    | none => simp only [redone, line]
    | some indent =>
      simp only [show (w.redone last pieces).breakIndent = some indent from line]
      exact redone_newline last pieces indent w

theorem quiet_enter (role : Role) : Quiet (enter role) :=
  ⟨fun _ => rfl, fun _ => rfl, fun _ _ _ => rfl⟩

theorem quiet_leave : Quiet leave :=
  ⟨fun _ => rfl, fun _ => rfl, fun _ _ _ => rfl⟩

theorem quiet_endLine (indent : Nat) : Quiet (endLineAfterComment indent) :=
  ⟨fun _ => rfl, fun _ => rfl, fun _ _ _ => rfl⟩

theorem quiet_broken : Quiet fun w => { w with broken := w.broken || w.inline } :=
  ⟨fun _ => rfl, fun _ => rfl, fun _ _ _ => rfl⟩

theorem Quiet.ite {change : Writer → Writer} (quiet : Quiet change) (condition : Prop)
    [Decidable condition] : Quiet fun w => if condition then change w else w := by
  by_cases holds : condition
  · simpa only [if_pos holds] using quiet
  · simpa only [if_neg holds] using quiet_id

end Writer

namespace Sheet

def Offers (sheet : Sheet) (token : Token) : Option WordCase → Prop
  | some choice =>
    choice ∈ [sheet.style.dataTypeCase, sheet.style.identifierCase, sheet.style.functionCase]
  | none => token.isReserved = true

def withStarts (starts : List Nat) (sheet : Sheet) : Sheet :=
  { sheet with lineStarts := starts }

variable {sheet : Sheet} {starts : List Nat}

theorem offers_caseFor (token : Token) (last : Option Token) (beforeCall : Bool) :
    sheet.Offers token (sheet.caseFor token last beforeCall) := by
  simp only [caseFor]
  grind [Offers]

theorem offers_dataType (token : Token) : sheet.Offers token (some sheet.style.dataTypeCase) := by
  simp [Offers]

theorem spelt_of_plain (option : Option WordCase) {token : Token}
    (plain : token.kind.isWordLike = false) : sheet.spelt option token = token.text := by
  unfold spelt
  rw [if_neg (by simp [plain])]

theorem spelt_congr (option : Option WordCase) {token twin : Token}
    (kind : twin.kind = token.kind) (text : twin.text = token.text)
    (contents : twin.contents = token.contents) :
    sheet.spelt option twin = sheet.spelt option token := by
  unfold spelt keywordText
  rw [kind, text, contents]

theorem spelt_of_wordLike (choice : WordCase) {token : Token}
    (wordLike : token.kind.isWordLike = true) :
    sheet.spelt (some choice) token = choice.apply token.text := by
  unfold spelt
  rw [if_pos wordLike]

end Sheet

/-- Twins in the place of tokens that are drawn with a sheet, for a text whose comments begin
lines at other places. The texts of twins have the same lines in every case that a token may be
written in, and so do the names of columns if these are shown. -/
structure Recasting where
  sheet : Sheet
  starts : List Nat
  change : Token → Token
  twins : ∀ token, Twin token (change token)
  lines : ∀ token option, sheet.Offers token option →
    SameLines (sheet.spelt option token).toList (sheet.spelt option (change token)).toList
  named : sheet.style.addColumnNameComments = true → ∀ run,
    plainText (recastRun change run) = plainText run

namespace Recasting

def other (copy : Recasting) : Sheet :=
  copy.sheet.withStarts copy.starts

/-- Two texts of a token in one case: its own, and that of its twin or its own again. A comma is
a comma on both sides. -/
def Writes (copy : Recasting) (token : Token) (text twin : String) : Prop :=
  (token.kind = .comma ∧ text = "," ∧ twin = ",") ∨
    ∃ option, copy.sheet.Offers token option ∧ text = copy.sheet.spelt option token ∧
      (twin = copy.sheet.spelt option (copy.change token) ∨ twin = text)

/-- Two texts that show the same marks with the same blanks between them. The names of columns
stand in both where they are asked for. -/
inductive Shows (copy : Recasting) : List Mark → List Char → List Char → Prop
  | nil : Shows copy [] [] []
  | append {marks others : List Mark} {first second front back : List Char}
      (before : Shows copy marks first second) (behind : Shows copy others front back) :
      Shows copy (marks ++ others) (first ++ front) (second ++ back)
  | gap (blanks : List Char) (blank : ∀ c ∈ blanks, c = ' ' ∨ c = '\n') :
      Shows copy [] blanks blanks
  | mark (mark : Mark) (text twin : String) (writes : copy.Writes mark.token text twin) :
      Shows copy [mark] text.toList twin.toList
  | noted (note : List Char) (asks : copy.sheet.style.addColumnNameComments = true) :
      Shows copy [] note note

theorem Writes.sameLines {copy : Recasting} {token : Token} {text twin : String}
    (writes : copy.Writes token text twin) : SameLines text.toList twin.toList := by
  rcases writes with ⟨-, rfl, rfl⟩ | ⟨option, offers, rfl, rfl | rfl⟩
  · rfl
  · exact copy.lines token option offers
  · rfl

theorem Shows.sameLines {copy : Recasting} {marks : List Mark} {first second : List Char}
    (shows : copy.Shows marks first second) : SameLines first second := by
  induction shows with
  | nil => rfl
  | append before behind front back => exact front.append back
  | gap blanks blank => rfl
  | mark mark text twin writes => exact writes.sameLines
  | noted note asks => rfl

structure Level (copy : Recasting) (mark : Mark) : Prop where
  kind : mark.token.kind = mark.kind
  begins : mark.kind = .comment →
    copy.starts.contains (copy.change mark.token).start =
      copy.sheet.lineStarts.contains mark.token.start

/-- Two writers that have done the same, and remember twins. The marks that they have written
stand before the rest in the whole; others before the rest may have been left out. -/
structure Beside (copy : Recasting) (whole rest : List Mark) (v w : Writer) : Prop where
  same : w = v.redone w.last w.pieces
  lasts : Option.Rel Twin v.last w.last
  shown : ∃ marks, (marks ++ rest).Sublist whole ∧ copy.Shows marks v.chars w.chars
  level : ∀ mark ∈ rest, copy.Level mark

namespace Beside

variable {copy : Recasting} {whole rest : List Mark} {v w : Writer}

theorem fresh (copy : Recasting) (inline : Bool) (level : ∀ mark ∈ whole, copy.Level mark) :
    copy.Beside whole whole { inline } { inline } :=
  ⟨rfl, .none, ⟨[], .refl whole, .nil⟩, level⟩

theorem inline (beside : copy.Beside whole rest v w) : w.inline = v.inline := by
  rw [beside.same]
  rfl

theorem broken (beside : copy.Beside whole rest v w) : w.broken = v.broken := by
  rw [beside.same]
  rfl

theorem column (beside : copy.Beside whole rest v w) : w.column = v.column := by
  rw [beside.same]
  rfl

theorem indent (beside : copy.Beside whole rest v w) : w.indent = v.indent := by
  rw [beside.same]
  rfl

theorem sameLines (beside : copy.Beside whole rest v w) : SameLines v.chars w.chars := by
  obtain ⟨marks, -, shows⟩ := beside.shown
  exact shows.sameLines

theorem quiet (beside : copy.Beside whole rest v w) {change : Writer → Writer}
    (quiet : Writer.Quiet change) : copy.Beside whole rest (change v) (change w) where
  same := by
    rw [quiet.last, quiet.pieces, ← quiet.redone, ← beside.same]
  lasts := by
    rw [quiet.last, quiet.last]
    exact beside.lasts
  shown := by
    rw [Writer.chars_eq_of_pieces (quiet.pieces v), Writer.chars_eq_of_pieces (quiet.pieces w)]
    exact beside.shown
  level := beside.level

theorem space (beside : copy.Beside whole rest v w) : copy.Beside whole rest v.space w.space :=
  beside.quiet Writer.quiet_space

theorem newline (beside : copy.Beside whole rest v w) (indent : Nat) :
    copy.Beside whole rest (v.newline indent) (w.newline indent) :=
  beside.quiet (Writer.quiet_newline indent)

theorem enter (beside : copy.Beside whole rest v w) (role : Role) :
    copy.Beside whole rest (v.enter role) (w.enter role) :=
  beside.quiet (Writer.quiet_enter role)

theorem leave (beside : copy.Beside whole rest v w) : copy.Beside whole rest v.leave w.leave :=
  beside.quiet Writer.quiet_leave

theorem mark (beside : copy.Beside whole rest v w) {token twin : Token} (same : Twin token twin)
    (unary : Bool) : copy.Beside whole rest (v.mark token unary) (w.mark twin unary) where
  same := congrArg (Writer.mark twin unary) beside.same
  lasts := .some same
  shown := beside.shown
  level := beside.level

theorem markAs (beside : copy.Beside whole rest v w) (token : Token) :
    copy.Beside whole rest (v.markAs token) (w.markAs token) where
  same := congrArg (Writer.markAs token) beside.same
  lasts := .some (Twin.refl token)
  shown := beside.shown
  level := beside.level

theorem shrink {marks others : List Mark} (beside : copy.Beside whole (marks ++ rest) v w)
    (inside : others.Sublist marks) : copy.Beside whole (others ++ rest) v w where
  same := beside.same
  lasts := beside.lasts
  shown := by
    obtain ⟨shown, among, drawn⟩ := beside.shown
    exact ⟨shown, ((inside.append_right rest).append_left shown).trans among, drawn⟩
  level := fun mark member => beside.level mark ((inside.append_right rest).subset member)

theorem extend (beside : copy.Beside whole rest v w) (more : List Mark)
    (level : ∀ mark ∈ more, copy.Level mark) :
    copy.Beside (whole ++ more) (rest ++ more) v w where
  same := beside.same
  lasts := beside.lasts
  shown := by
    obtain ⟨marks, inside, shows⟩ := beside.shown
    exact ⟨marks, List.append_assoc .. ▸ inside.append_right more, shows⟩
  level := fun mark member => (List.mem_append.1 member).elim (beside.level mark) (level mark)

theorem write {marks : List Mark} (beside : copy.Beside whole (marks ++ rest) v w)
    {text twin : String} (shows : copy.Shows marks text.toList twin.toList) :
    copy.Beside whole rest (v.write text) (w.write twin) := by
  have lines := shows.sameLines
  obtain ⟨shown, inside, drawn⟩ := beside.shown
  rw [← List.append_assoc] at inside
  have level : ∀ mark ∈ rest, copy.Level mark :=
    fun mark member => beside.level mark (List.mem_append_right marks member)
  have settled := beside.quiet Writer.quiet_settle
  have chars (u : Writer) : u.settle.chars = u.chars :=
    Writer.chars_eq_of_pieces (Writer.quiet_settle.pieces u)
  rw [← chars v, ← chars w] at drawn
  unfold Writer.write
  by_cases empty : text = ""
  · rw [if_pos empty, if_pos (lines.eq_empty.2 empty)]
    refine ⟨beside.same, beside.lasts, ⟨_, inside, ?_⟩, level⟩
    rw [empty, lines.eq_empty.2 empty] at shows
    rw [← chars v, ← chars w]
    simpa using drawn.append shows
  rw [if_neg empty, if_neg (mt lines.eq_empty.1 empty)]
  generalize v.settle = x at settled drawn
  generalize w.settle = y at settled drawn
  have pending : y.pendingBreak = x.pendingBreak ∧ y.pendingSpaces = x.pendingSpaces := by
    rw [settled.same]
    exact ⟨rfl, rfl⟩
  refine ⟨?_, settled.lasts, ⟨_, inside, ?_⟩, level⟩
  · rw [settled.same]
    simp only [Writer.put, Writer.redone, lines.columnAfter, lines.breaks]
  · rw [Writer.chars_put, Writer.chars_put, pending.1, pending.2]
    refine drawn.append ((Shows.gap _ ?_).append shows)
    intro c member
    simp only [Piece.separator, List.mem_append, List.mem_replicate] at member
    rcases member with line | space
    · split at line <;> simp_all
    · exact .inl space.2

variable {marks : List Mark}

theorem level_head {mark : Mark} (beside : copy.Beside whole (mark :: rest) v w) :
    copy.Level mark :=
  beside.level mark (by simp)

theorem each {α : Type} (beside : copy.Beside whole (marks ++ rest) v w) (part : α → List Mark)
    (draw again : Nat → α → Writer → Writer) (index : Nat) (entries : List α)
    (split : marks = entries.flatMap part)
    (entry : ∀ place, index ≤ place → ∀ entry ∈ entries, ∀ (rest : List Mark) (v w : Writer),
      copy.Beside whole (part entry ++ rest) v w →
      copy.Beside whole rest (draw place entry v) (again place entry w)) :
    copy.Beside whole rest (Writer.each draw index entries v)
      (Writer.each again index entries w) := by
  subst split
  induction entries generalizing index v w with
  | nil => simpa using beside
  | cons first others ih =>
    rw [List.flatMap_cons, List.append_assoc] at beside
    exact ih (index + 1) (fun place later next member =>
      entry place (by omega) next (List.mem_cons_of_mem first member))
      (entry index (Nat.le_refl index) first (by simp) _ v w beside)

end Beside

end Recasting

def commaList {α : Type} (part : α → List Mark) : List α → List Mark
  | [] => []
  | first :: rest => part first ++ rest.flatMap fun entry => commaMark :: part entry

def commaBefore (index : Nat) : List Mark :=
  if index = 0 then [] else [commaMark]

namespace Recasting.Beside

variable {copy : Recasting} {whole rest marks : List Mark} {v w : Writer}

theorem listed {α : Type} (beside : copy.Beside whole (marks ++ rest) v w)
    (part : α → List Mark) (draw again : Nat → α → Writer → Writer) (entries : List α)
    (split : marks = commaList part entries)
    (entry : ∀ place, ∀ entry ∈ entries, ∀ (rest : List Mark) (v w : Writer),
      copy.Beside whole (commaBefore place ++ (part entry ++ rest)) v w →
      copy.Beside whole rest (draw place entry v) (again place entry w)) :
    copy.Beside whole rest (Writer.each draw 0 entries v) (Writer.each again 0 entries w) := by
  subst split
  cases entries with
  | nil => exact beside
  | cons first others =>
    rw [commaList, List.append_assoc] at beside
    refine (entry 0 first (by simp) _ v w beside).each _ draw again 1 others rfl ?_
    intro place later next member rest x y here
    refine entry place next (List.mem_cons_of_mem first member) rest x y ?_
    rwa [commaBefore, if_neg (by omega)]

end Recasting.Beside

namespace Sheet

variable {sheet : Sheet} {change : Token → Token} {token twin : Token}
  {first second : Option Token}

theorem isUnary_twin (same : Twin token twin) (lasts : Option.Rel Twin first second) :
    isUnary twin second = isUnary token first := by
  have place : isUnaryPlace second = isUnaryPlace first := by
    cases lasts with
    | none => rfl
    | some last =>
      simp only [isUnaryPlace, last.kind, last.isComment,
        last.ofReserved fun contents => !Keyword.operandWords.contains contents]
  rw [isUnary, isUnary, place, same.kind]
  by_cases kind : token.kind = .operator
  · rw [same.text (by simp [kind, Token.Kind.isWordLike])]
  · simp [kind]

theorem gluesAfter_twin (same : Twin token twin) :
    sheet.gluesAfter twin = sheet.gluesAfter token := by
  rw [gluesAfter, gluesAfter, same.kind]
  by_cases kind : token.kind = .operator
  · rw [same.text (by simp [kind, Token.Kind.isWordLike])]
  · simp [kind]

theorem gluesBefore_twin {last other : Token} (same : Twin token twin) (lasts : Twin last other) :
    sheet.gluesBefore twin other = sheet.gluesBefore token last := by
  rw [gluesBefore, gluesBefore, same.kind, lasts.kind]
  by_cases kind : token.kind = .operator
  · rw [same.text (by simp [kind, Token.Kind.isWordLike])]
  · simp [kind]

theorem caseFor_twin (same : Twin token twin) (lasts : Option.Rel Twin first second)
    (beforeCall : Bool) :
    sheet.caseFor twin second beforeCall = sheet.caseFor token first beforeCall := by
  have operators (property : String → Bool) :
      (second.filter fun last => last.kind = .operator).any (fun last => property last.text) =
        (first.filter fun last => last.kind = .operator).any fun last => property last.text := by
    cases lasts with
    | none => rfl
    | @some last other related =>
      by_cases kind : last.kind = .operator
      · simp [Option.filter, related.kind, kind,
          related.text (by simp [kind, Token.Kind.isWordLike])]
      · simp [Option.filter, related.kind, kind]
  simp only [caseFor, operators fun text => decide (text = "::"),
    operators fun text => sheet.isSeparator text, same.called, same.isReserved]

theorem startsCall_recast (elements : List Element) :
    startsCall (recastRun change elements) = startsCall elements := by
  cases elements with
  | nil => rfl
  | cons element rest =>
    cases element with
    | token token => rfl
    | group group =>
      cases group
      rfl
    | case case =>
      rw [recastRun, Element.recast]
      rfl

end Sheet

namespace Recasting

variable {copy : Recasting} {whole rest : List Mark} {v w : Writer} {twin : Token}

theorem needsSpace_twin {token : Token} (same : Twin token twin)
    (beside : copy.Beside whole rest v w) :
    copy.other.needsSpace w twin = copy.sheet.needsSpace v token := by
  have lasts := beside.lasts
  have after (last : Token) : copy.other.gluesAfter last = copy.sheet.gluesAfter last := rfl
  have before (token last : Token) :
      copy.other.gluesBefore token last = copy.sheet.gluesBefore token last := rfl
  have parens : w.inListParens = v.inListParens ∧ w.lastUnary = v.lastUnary := by
    rw [beside.same]
    exact ⟨rfl, rfl⟩
  unfold Sheet.needsSpace
  cases found : v.last with
  | none =>
    rw [found] at lasts
    cases next : w.last with
    | none => rfl
    | some other =>
      rw [next] at lasts
      cases lasts
  | some last =>
    rw [found] at lasts
    cases next : w.last with
    | none =>
      rw [next] at lasts
      cases lasts
    | some other =>
      rw [next] at lasts
      cases lasts with
      | some related =>
        simp only [related.isComment, related.kind, same.kind, after, before,
          Sheet.gluesAfter_twin related, Sheet.gluesBefore_twin same related, parens.1, parens.2]
        rfl

theorem writes_plain {token : Token} (plain : token.kind.isWordLike = false) :
    copy.Writes token token.text token.text :=
  .inr ⟨_, Sheet.offers_dataType token, (Sheet.spelt_of_plain _ plain).symm, .inr rfl⟩

theorem writes_cased {token : Token} {first second : Option Token} (same : Twin token twin)
    (lasts : Option.Rel Twin first second) (beforeCall : Bool)
    (again : ∀ option, copy.sheet.spelt option twin = copy.sheet.spelt option (copy.change token) ∨
      copy.sheet.spelt option twin = copy.sheet.spelt option token) :
    copy.Writes token (copy.sheet.cased token first beforeCall)
      (copy.other.cased twin second beforeCall) := by
  have chosen : copy.other.caseFor twin second beforeCall =
      copy.sheet.caseFor token first beforeCall := Sheet.caseFor_twin same lasts beforeCall
  rw [Sheet.cased_eq_spelt, Sheet.cased_eq_spelt, chosen]
  exact .inr ⟨_, Sheet.offers_caseFor token first beforeCall, rfl, again _⟩

structure InStep (copy : Recasting) (left right : Painter) : Prop where
  run : ∀ (mode : RunMode) (indent : Nat) (elements : List Element) (whole rest : List Mark)
    (v w : Writer), copy.Beside whole ((traceRun elements).marks ++ rest) v w →
    copy.Beside whole rest (left.run mode indent elements v)
      (right.run mode indent (recastRun copy.change elements) w)
  statement : ∀ (base : Nat) (body : Statement) (whole rest : List Mark) (v w : Writer),
    copy.Beside whole (body.trace.marks ++ rest) v w →
    copy.Beside whole rest (left.statement base body v)
      (right.statement base (body.recast copy.change) w)

namespace Beside

variable {mark : Mark}

theorem put (beside : copy.Beside whole (mark :: rest) v w) {text twin : String}
    (writes : copy.Writes mark.token text twin) :
    copy.Beside whole rest (v.write text) (w.write twin) := by
  have beside : copy.Beside whole ([mark] ++ rest) v w := beside
  exact beside.write (.mark mark text twin writes)

theorem punct (beside : copy.Beside whole (mark :: rest) v w) (same : Twin mark.token twin)
    (plain : mark.kind.isWordLike = false) :
    copy.Beside whole rest (Sheet.punct mark.token v) (Sheet.punct twin w) := by
  rw [← beside.level_head.kind] at plain
  rw [Sheet.punct, Sheet.punct, same.text plain]
  exact (beside.put (writes_plain plain)).mark same false

theorem comma (beside : copy.Beside whole (mark :: rest) v w) (kind : mark.token.kind = .comma) :
    copy.Beside whole rest (Sheet.punct commaToken v) (Sheet.punct commaToken w) :=
  (beside.put (.inl ⟨kind, rfl, rfl⟩)).mark (Twin.refl commaToken) false

theorem solid (beside : copy.Beside whole (mark :: rest) v w) (same : Twin mark.token twin)
    {text again : String} (writes : copy.Writes mark.token text again) :
    copy.Beside whole rest (copy.sheet.solid text mark.token v)
      (copy.other.solid again twin w) := by
  rw [Sheet.solid, Sheet.solid, needsSpace_twin same beside,
    Sheet.isUnary_twin same beside.lasts]
  exact ((beside.quiet (Writer.quiet_space.ite _)).put writes).mark same _

theorem comment (beside : copy.Beside whole (mark :: rest) v w) (same : Twin mark.token twin)
    (kind : mark.token.kind = .comment)
    (begins : copy.other.lineStarts.contains twin.start =
      copy.sheet.lineStarts.contains mark.token.start) (indent : Nat) :
    copy.Beside whole rest (copy.sheet.comment indent mark.token v)
      (copy.other.comment indent twin w) := by
  have plain : mark.token.kind.isWordLike = false := by
    rw [kind]
    rfl
  rw [Sheet.comment, Sheet.comment, begins, same.isLineComment, same.text plain]
  have placed : copy.Beside whole (mark :: rest)
      (if copy.sheet.lineStarts.contains mark.token.start then v.newline indent else v.space)
      (if copy.sheet.lineStarts.contains mark.token.start then w.newline indent
        else w.space) := by
    split
    · exact beside.newline indent
    · exact beside.space
  exact ((placed.put (writes_plain plain)).mark same false).quiet
    ((Writer.quiet_endLine indent).ite _)

theorem wordOf (beside : copy.Beside whole (mark :: rest) v w) (same : Twin mark.token twin)
    (start : twin.start = (copy.change mark.token).start)
    (again : ∀ option,
      copy.sheet.spelt option twin = copy.sheet.spelt option (copy.change mark.token) ∨
        copy.sheet.spelt option twin = copy.sheet.spelt option mark.token)
    (indent : Nat) (beforeCall : Bool) :
    copy.Beside whole rest (copy.sheet.word indent beforeCall mark.token v)
      (copy.other.word indent beforeCall twin w) := by
  rw [Sheet.word, Sheet.word, same.isComment]
  split
  · rename_i isComment
    have kind : mark.token.kind = .comment := by simpa [Token.isComment] using isComment
    refine beside.comment same kind ?_ indent
    rw [start]
    exact beside.level_head.begins (beside.level_head.kind ▸ kind)
  · exact beside.solid same (writes_cased same beside.lasts beforeCall again)

theorem word (beside : copy.Beside whole (mark :: rest) v w) (indent : Nat) (beforeCall : Bool) :
    copy.Beside whole rest (copy.sheet.word indent beforeCall mark.token v)
      (copy.other.word indent beforeCall (copy.change mark.token) w) :=
  beside.wordOf (copy.twins mark.token) rfl (fun _ => .inl rfl) indent beforeCall

theorem token (beside : copy.Beside whole (mark :: rest) v w) (indent : Nat) :
    copy.Beside whole rest (copy.sheet.token indent mark.token v)
      (copy.other.token indent (copy.change mark.token) w) :=
  beside.word indent false

theorem typeWord (beside : copy.Beside whole (mark :: rest) v w)
    (wordLike : mark.token.kind.isWordLike = true) :
    copy.Beside whole rest (copy.sheet.typeWord mark.token v)
      (copy.other.typeWord (copy.change mark.token) w) := by
  have same := copy.twins mark.token
  refine beside.solid same (.inr ⟨_, Sheet.offers_dataType mark.token,
    (Sheet.spelt_of_wordLike _ wordLike).symm, .inl ?_⟩)
  exact (Sheet.spelt_of_wordLike _ (same.kind ▸ wordLike)).symm

theorem run {left right : Painter} {elements : List Element}
    (beside : copy.Beside whole ((traceRun elements).marks ++ rest) v w)
    (inStep : copy.InStep left right) (mode : RunMode) (indent : Nat) :
    copy.Beside whole rest (left.run mode indent elements v)
      (right.run mode indent (recastRun copy.change elements) w) :=
  inStep.run mode indent elements whole rest v w beside

theorem statement {left right : Painter} {body : Statement}
    (beside : copy.Beside whole (body.trace.marks ++ rest) v w)
    (inStep : copy.InStep left right) (base : Nat) :
    copy.Beside whole rest (left.statement base body v)
      (right.statement base (body.recast copy.change) w) :=
  inStep.statement base body whole rest v w beside

end Beside

end Recasting

theorem rel_filter {first second : Option Token} (lasts : Option.Rel Twin first second)
    (property : Token → Bool)
    (same : ∀ token twin, Twin token twin → property twin = property token) :
    Option.Rel Twin (first.filter property) (second.filter property) := by
  cases lasts with
  | none => exact .none
  | some twins =>
    simp only [Option.filter, same _ _ twins]
    split
    · exact .some twins
    · exact .none

theorem all_isComment_twin {first second : Option Token} (lasts : Option.Rel Twin first second) :
    second.all Token.isComment = first.all Token.isComment := by
  cases lasts with
  | none => rfl
  | some twins => exact twins.isComment

namespace Recasting

variable {copy : Recasting} {left right : Painter} {whole rest : List Mark} {v w : Writer}
  (inStep : copy.InStep left right)

include inStep

/-- A trial on one line succeeds on both sides or on neither. -/
theorem onOneLine_recast (body : Statement) (level : ∀ mark ∈ body.trace.marks, copy.Level mark) :
    (copy.sheet.onOneLine? left body = none ∧
        copy.other.onOneLine? right (body.recast copy.change) = none) ∨
      ∃ text twin marks, copy.sheet.onOneLine? left body = some text ∧
        copy.other.onOneLine? right (body.recast copy.change) = some twin ∧
        marks.Sublist body.trace.marks ∧ copy.Shows marks text.toList twin.toList := by
  have fresh := Beside.fresh copy true level
  have start : copy.Beside body.trace.marks (body.trace.marks ++ []) { inline := true }
      { inline := true } := by
    rwa [List.append_nil]
  have drawn := start.statement inStep 0
  have width : copy.other.width = copy.sheet.width := rfl
  unfold Sheet.onOneLine?
  simp only [drawn.broken, drawn.sameLines.length, width]
  split
  · exact .inl ⟨rfl, rfl⟩
  · obtain ⟨marks, inside, shows⟩ := drawn.shown
    rw [List.append_nil] at inside
    refine .inr ⟨_, _, marks, rfl, rfl, inside, ?_⟩
    simpa only [Writer.text, String.toList_ofList] using shows

theorem beside_subquery (block : Bool) (body : Statement)
    (beside : copy.Beside whole (body.trace.marks ++ rest) v w) :
    copy.Beside whole rest (copy.sheet.subquery left block body v)
      (copy.other.subquery right block (body.recast copy.change) w) := by
  have level : ∀ mark ∈ body.trace.marks, copy.Level mark :=
    fun mark member => beside.level mark (List.mem_append_left rest member)
  unfold Sheet.subquery
  rw [beside.inline, beside.column, beside.indent]
  split
  · exact beside.statement inStep v.column
  split
  · exact ((beside.newline (v.indent + 2)).statement inStep (v.indent + 2)).newline _
  rcases onOneLine_recast inStep body level with
    ⟨first, second⟩ | ⟨text, twin, marks, first, second, inside, shows⟩
  · rw [first, second]
    exact beside.statement inStep v.column
  · rw [first, second]
    exact ((beside.shrink inside).write shows).markAs closeToken

theorem beside_decode (nameColumn : Nat) (group : Group) (isCall : group.role = .call)
    (beside : copy.Beside whole (group.trace.marks ++ rest) v w) :
    copy.Beside whole rest (copy.sheet.decode left nameColumn group v)
      (copy.other.decode right nameColumn (group.recast copy.change) w) := by
  obtain ⟨opening, closing, depth, role, body, elements, items⟩ := group
  have plain : ¬(role = .subquery ∧ body.isSome = true) := by
    rw [show role = .call from isCall]
    simp
  obtain ⟨first, others, cut⟩ : ∃ first others, cutCommas elements = (first, others) :=
    ⟨_, _, rfl⟩
  simp only [trace_group, if_neg plain, Trace.marks_append, Trace.marks_opening,
    Trace.marks_closing, marks_cutCommas elements first others cut, List.append_assoc,
    List.cons_append, List.nil_append] at beside
  have opened := beside.punct (copy.twins opening) rfl
  unfold Sheet.decode
  simp only [Group.recast, cutCommas_recast copy.twins, cut, opened.column, Writer.each,
    Writer.each_map]
  refine Beside.token (Beside.newline (Beside.leave (Beside.each
    (Beside.run (opened.enter .call) inStep {} (Sheet.punct opening v).column) _ _ _ 1 others rfl
    fun place later part member rest x y here => ?_)) nameColumn) nameColumn
  have isComma : (Mark.ofToken part.1).token.kind = .comma :=
    cutCommas_kind elements part (by rw [cut]; exact member)
  simp only [if_neg (show place ≠ 0 by omega)]
  exact ((here.comma isComma).quiet ((Writer.quiet_newline _).ite _)).run inStep {} _

theorem beside_content (block : Bool) {first second : Option Token}
    (names : Option.Rel Twin first second) (group : Group)
    (beside : copy.Beside whole
      ((if group.role = .subquery ∧ group.body.isSome then traceBody group.body
        else traceRun group.elements).marks ++ rest) v w) :
    copy.Beside whole rest (copy.sheet.content left block first group v)
      (copy.other.content right block second (group.recast copy.change) w) := by
  obtain ⟨opening, closing, depth, role, body, elements, items⟩ := group
  have casts : (second.any fun name => castFunctions.contains (Text.upper name.contents)) =
      first.any fun name => castFunctions.contains (Text.upper name.contents) := by
    cases names with
    | none => rfl
    | some twins => simp only [Option.any_some, twins.called]
  have run (other : ¬(role = .subquery ∧ body.isSome = true)) :
      copy.Beside whole rest
        (left.run { typeAfterAs := first.any fun name =>
          castFunctions.contains (Text.upper name.contents) } v.column elements v)
        (right.run { typeAfterAs := second.any fun name =>
          castFunctions.contains (Text.upper name.contents) } w.column
          (recastRun copy.change elements) w) := by
    rw [if_neg other] at beside
    rw [casts, beside.column]
    exact beside.run inStep _ _
  by_cases isSubquery : role = .subquery
  · subst isSubquery
    cases body with
    | none => exact run (by simp)
    | some body =>
      rw [if_pos (by simp)] at beside
      exact beside_subquery inStep block body beside
  · have other := run fun both => isSubquery both.1
    unfold Sheet.content
    cases role with
    | subquery => exact absurd rfl isSubquery
    | grouping => exact other
    | call => exact other
    | tuple => exact other

theorem beside_group (indent : Nat) (block : Bool) (group : Group)
    (beside : copy.Beside whole (group.trace.marks ++ rest) v w) :
    copy.Beside whole rest (copy.sheet.group left indent block group v)
      (copy.other.group right indent block (group.recast copy.change) w) := by
  have names : Option.Rel Twin (if group.role = .call then v.last else none)
      (if group.role = .call then w.last else none) := by
    split
    · exact beside.lasts
    · exact .none
  have decodes := rel_filter names
    (fun name => Text.upper name.text = "DECODE" && !group.elements.isEmpty && !v.inline)
    fun token twin same => by simp only [same.spoken "DECODE" (by decide)]
  have role : (group.recast copy.change).role = group.role := by
    cases group
    rfl
  have elements : (group.recast copy.change).elements.isEmpty = group.elements.isEmpty := by
    cases group
    exact isEmpty_recastRun _
  have opening : (group.recast copy.change).opening = copy.change group.opening := by
    cases group
    rfl
  have closing : (group.recast copy.change).closing = copy.change group.closing := by
    cases group
    rfl
  have parts := beside
  rw [trace_group] at parts
  simp only [Trace.marks_append, Trace.marks_opening, Trace.marks_closing, List.append_assoc,
    List.cons_append, List.nil_append] at parts
  unfold Sheet.group
  simp only [role, elements, beside.inline, opening, closing, beside.column,
    needsSpace_twin (copy.twins group.opening) beside]
  generalize found : (if group.role = .call then v.last else none).filter
    (fun name => Text.upper name.text = "DECODE" && !group.elements.isEmpty && !v.inline) =
      first at decodes ⊢
  generalize (if group.role = .call then w.last else none).filter
    (fun name => Text.upper name.text = "DECODE" && !group.elements.isEmpty && !v.inline) =
      second at decodes ⊢
  cases decodes with
  | some twins =>
    rename_i name other
    obtain ⟨named, isDecode⟩ := Option.filter_eq_some_iff.1 found
    have isCall : group.role = .call := by
      by_cases isCall : group.role = .call
      · exact isCall
      · rw [if_neg isCall] at named
        cases named
    simp only [Bool.and_eq_true, decide_eq_true_eq] at isDecode
    simp only [twins.size (.inr isDecode.1.1)]
    exact beside_decode inStep _ group isCall beside
  | none =>
    simp only [all_isComment_twin names]
    have opened := (parts.quiet (Writer.quiet_space.ite
      (((if group.role = .call then v.last else none).all Token.isComment &&
        copy.sheet.needsSpace v group.opening) = true))).punct (copy.twins group.opening) rfl
    exact (beside_content inStep block names group (opened.enter group.role)).leave.token indent

theorem beside_case (case : Case Element)
    (beside : copy.Beside whole ((Element.case case).trace.marks ++ rest) v w) :
    ∃ recast, (Element.case case).recast copy.change = .case recast ∧
      copy.Beside whole rest (copy.sheet.caseExpression left case v)
        (copy.other.caseExpression right recast w) := by
  obtain ⟨keyword, closing, depth, operand, branches⟩ := case
  rw [Element.recast]
  refine ⟨_, rfl, ?_⟩
  simp only [Element.trace, Trace.marks_append, Trace.marks_ofToken, List.append_assoc,
    List.cons_append, List.nil_append, marks_traceBranches] at beside
  have drawn : copy.Beside whole
        ((traceRun operand).marks ++ (branches.flatMap (fun branch =>
          Mark.ofToken branch.keyword :: (traceRun branch.elements).marks) ++
            Mark.ofToken closing :: rest))
        (copy.sheet.token v.column keyword v)
        (copy.other.token w.column
          (if keyword.isCompound then { copy.change keyword with text := keyword.text }
            else copy.change keyword) w) ∧
      (if keyword.isCompound then { copy.change keyword with text := keyword.text }
        else copy.change keyword).text.length = keyword.text.length := by
    rw [beside.column]
    split
    · rename_i several
      simp only [Token.isCompound, Bool.and_eq_true] at several
      refine ⟨beside.wordOf (copy.twins keyword).withText rfl (fun option => .inr ?_) v.column
        false, rfl⟩
      exact Sheet.spelt_congr option (copy.twins keyword).kind rfl
        ((copy.twins keyword).contents several.1)
    · rename_i single
      exact ⟨beside.token v.column, (copy.twins keyword).size (.inl (by simpa using single))⟩
  unfold Sheet.caseExpression
  simp only [drawn.1.column, drawn.2, recastBranches_eq_map, Writer.each_map]
  refine Beside.token (Beside.newline (Beside.each (drawn.1.run inStep {} _) _ _ _ 0 branches rfl
    fun place _ branch member rest x y here => ?_) _) _
  simp only [Branch.recast, (copy.twins branch.keyword).width]
  exact ((here.newline _).token _).run inStep {} _

theorem beside_runFrom (mode : RunMode) (indent : Nat) (afterAs : Bool) (elements : List Element)
    (beside : copy.Beside whole ((traceRun elements).marks ++ rest) v w) :
    copy.Beside whole rest (copy.sheet.runFrom left mode indent afterAs elements v)
      (copy.other.runFrom right mode indent afterAs (recastRun copy.change elements) w) := by
  induction elements generalizing afterAs v w with
  | nil => exact beside
  | cons element others ih =>
    simp only [traceRun, Trace.marks_append, List.append_assoc] at beside
    cases element with
    | token token =>
      rw [recastRun, Element.recast, Sheet.runFrom, Sheet.runFrom, (copy.twins token).isKeyword,
        Sheet.startsCall_recast, (copy.twins token).kind]
      refine ih _ ?_
      split
      · rename_i types
        simp only [Bool.and_eq_true] at types
        exact Beside.typeWord beside types.2
      · exact Beside.word beside indent _
    | group inner =>
      rw [recastRun, Element.recast, Sheet.runFrom, Sheet.runFrom, isSubquery_recast]
      exact ih _ (beside_group inStep indent _ inner beside)
    | case inner =>
      obtain ⟨recast, same, drawn⟩ := beside_case inStep inner beside
      rw [recastRun, same, Sheet.runFrom, Sheet.runFrom]
      exact ih _ drawn

end Recasting

end SqlLayout.Layout
