import SqlLayout.Layout.Statements
import SqlLayout.Proofs.Trace

/-! Drawing as a sequence of steps. A writer is changed in a dozen ways only: a space or a
line is asked for, or one token or the name of a column is written. `Draws` lists them, with
the marks that are written on the way. Every function that draws a part of a tree is such a
sequence, and the marks it writes are the trace of that part; so whatever each step keeps, the
whole layout keeps. The induction goes along the levels of the painter, each of which draws
with the one below it. -/
namespace SqlLayout.Layout

open SqlLayout.Tree SqlLayout.Style

def Spelling (token : Token) (text : String) : Prop :=
  if token.kind.isWordLike then
    ∃ choice : WordCase, text = choice.apply token.text ∨
      text = choice.apply (Text.collapse token.text) ∨ text = choice.apply token.contents
  else text = token.text

theorem spelling_text (token : Token) : Spelling token token.text := by
  unfold Spelling
  split
  · exact ⟨.asIs, .inl rfl⟩
  · rfl

/-- The name of a column, put together from tokens of the source, where names are shown. -/
def IsName (sheet : Sheet) (source : List Token) (name : String) : Prop :=
  sheet.style.addColumnNameComments = true ∧
    ∃ item : List Element, name = plainText item ∧ collectRun item ⊆ source

/-- What a layout does to a writer, and the marks that it writes. A line may be started
before anything is written only without indentation. -/
inductive Draws (sheet : Sheet) (source : List Token) : List Mark → Writer → Writer → Prop
  | done (w : Writer) : Draws sheet source [] w w
  | append {first second : List Mark} {w v u : Writer} (front : Draws sheet source first w v)
      (back : Draws sheet source second v u) : Draws sheet source (first ++ second) w u
  | space (w : Writer) : Draws sheet source [] w w.space
  | newline (indent : Nat) (w : Writer) (atStart : w.last = none → indent = 0) :
      Draws sheet source [] w (w.newline indent)
  | padTo (column : Nat) (w : Writer) : Draws sheet source [] w (w.padTo column)
  | parens (roles : List Role) (w : Writer) : Draws sheet source [] w { w with parens := roles }
  | breaks (w : Writer) : Draws sheet source [] w { w with broken := w.broken || w.inline }
  | comment (indent : Nat) (mark : Mark) (w : Writer)
      (isComment : mark.kind = .comment ∨ mark.token.isComment = true)
      (atStart : w.last = none → indent = 0) :
      Draws sheet source [mark] w (sheet.comment indent mark.token w)
  | opening (token : Token) (w : Writer) :
      Draws sheet source [⟨token, .parenOpen⟩] w (Sheet.punct token w)
  | closing (token : Token) (w : Writer) :
      Draws sheet source [⟨token, .parenClose⟩] w (Sheet.punct token w)
  | comma (token : Token) (w : Writer) (isComma : token.kind = .comma) :
      Draws sheet source [.ofToken token] w (Sheet.punct commaToken w)
  | leadingComma (w : Writer) :
      Draws sheet source [commaMark] w ((Sheet.punct commaToken w).markAs openToken)
  | solid (text : String) (mark : Mark) (w : Writer) (isSolid : mark.token.isComment = false)
      (spelling : Spelling mark.token text) :
      Draws sheet source [mark] w (sheet.solid text mark.token w)
  /-- The name of a column before a value, and comments that are not repeated behind it. -/
  | noted (name : String) (copies : List Mark) (w : Writer) (isName : IsName sheet source name)
      (same : ∀ mark ∈ copies,
        mark.token.isComment = true ∧ mark.token.text = "/* " ++ name ++ " */") :
      Draws sheet source copies w ((w.write ("/* " ++ name ++ " */")).space.markAs openToken)
  /-- A group whose content was drawn by a writer of its own, on one line. -/
  | inlined {marks : List Mark} {inner : Writer} (role : Role) (indent : Nat)
      (first last : Token) (w : Writer)
      (content : Draws sheet source marks { inline := true } inner) (whole : inner.broken = false) :
      Draws sheet source ([⟨first, .parenOpen⟩] ++ marks ++ [⟨last, .parenClose⟩]) w
        (sheet.token indent last
          ((((Sheet.punct first w).enter role).write inner.text).markAs closeToken).leave)

namespace Writer

/-- Nothing has been written yet only if lines start at the left. -/
def Ready (indent : Nat) (w : Writer) : Prop :=
  w.last = none → indent = 0 ∧ w.column = 0

@[simp] theorem last_spaces (count : Nat) (w : Writer) : (w.spaces count).last = w.last := by
  unfold spaces
  split <;> rfl

@[simp] theorem last_space (w : Writer) : w.space.last = w.last :=
  last_spaces 1 w

@[simp] theorem last_newline (indent : Nat) (w : Writer) : (w.newline indent).last = w.last := by
  unfold newline
  split
  · rw [last_space]
  · rfl

@[simp] theorem last_padTo (column : Nat) (w : Writer) : (w.padTo column).last = w.last := by
  unfold padTo
  split
  · exact last_space w
  · split <;> rfl

@[simp] theorem column_spaces (count : Nat) (w : Writer) : (w.spaces count).column = w.column := by
  unfold spaces
  split <;> rfl

@[simp] theorem column_padTo (column : Nat) (w : Writer) :
    (w.padTo column).column = w.column := by
  unfold padTo
  split
  · exact column_spaces 1 w
  · split <;> rfl

theorem column_newline (indent : Nat) (w : Writer) :
    (w.newline indent).column = w.column ∨ (w.newline indent).column = 0 := by
  unfold newline
  split
  · exact .inl (column_spaces 1 _)
  · simp only
    split
    · exact .inr rfl
    · exact .inl rfl

end Writer

namespace Sheet

@[simp] theorem last_punct (token : Token) (w : Writer) : (punct token w).last = some token := rfl

@[simp] theorem last_solid (sheet : Sheet) (text : String) (token : Token) (w : Writer) :
    (sheet.solid text token w).last = some token := rfl

@[simp] theorem last_comment (sheet : Sheet) (indent : Nat) (token : Token) (w : Writer) :
    (sheet.comment indent token w).last = some token := by
  simp only [comment]
  split <;> rfl

@[simp] theorem last_word (sheet : Sheet) (indent : Nat) (beforeCall : Bool) (token : Token)
    (w : Writer) : (sheet.word indent beforeCall token w).last = some token := by
  unfold word
  split
  · exact last_comment sheet indent token w
  · rfl

@[simp] theorem last_token (sheet : Sheet) (indent : Nat) (token : Token) (w : Writer) :
    (sheet.token indent token w).last = some token :=
  last_word sheet indent false token w

@[simp] theorem last_typeWord (sheet : Sheet) (token : Token) (w : Writer) :
    (sheet.typeWord token w).last = some token := rfl

end Sheet

namespace Draws

variable {sheet : Sheet} {source : List Token} {marks : List Mark} {w v : Writer}

theorem started (draws : Draws sheet source marks w v) (written : w.last ≠ none ∨ marks ≠ []) :
    v.last ≠ none := by
  induction draws with
  | done w => simpa using written
  | append front back first second =>
    apply second
    rcases written with before | some
    · exact .inl (first (.inl before))
    · rw [ne_eq, List.append_eq_nil_iff] at some
      grind
  | space w => simpa using written
  | newline indent w => simpa using written
  | padTo column w => simpa using written
  | parens roles w => simpa using written
  | breaks w => simpa using written
  | comment indent mark w => simp
  | opening token w => simp
  | closing token w => simp
  | comma token w => simp
  | leadingComma w => simp [Writer.markAs]
  | solid text mark w => simp
  | noted name copies w => simp [Writer.markAs]
  | inlined role indent first last w => simp

theorem ready (draws : Draws sheet source marks w v) {indent : Nat} (before : w.Ready indent) :
    v.Ready indent := by
  induction draws with
  | done w => exact before
  | append front back first second => exact second (first before)
  | space w =>
    intro nothing
    rw [Writer.last_space] at nothing
    exact ⟨(before nothing).1, (Writer.column_spaces 1 w).trans (before nothing).2⟩
  | newline line w =>
    intro nothing
    rw [Writer.last_newline] at nothing
    obtain ⟨indented, column⟩ := before nothing
    rcases Writer.column_newline line w with same | zero
    · exact ⟨indented, same.trans column⟩
    · exact ⟨indented, zero⟩
  | padTo column w =>
    intro nothing
    rw [Writer.last_padTo] at nothing
    exact ⟨(before nothing).1, (Writer.column_padTo column w).trans (before nothing).2⟩
  | parens roles w => exact before
  | breaks w => exact before
  | comment line mark w =>
    intro nothing
    simp at nothing
  | opening token w =>
    intro nothing
    simp at nothing
  | closing token w =>
    intro nothing
    simp at nothing
  | comma token w =>
    intro nothing
    simp at nothing
  | leadingComma w =>
    intro nothing
    simp [Writer.markAs] at nothing
  | solid text mark w =>
    intro nothing
    simp at nothing
  | noted name copies w =>
    intro nothing
    simp [Writer.markAs] at nothing
  | inlined role line first last w =>
    intro nothing
    simp at nothing

theorem after {u : Writer} (front : Draws sheet source [] w v)
    (back : Draws sheet source marks v u) : Draws sheet source marks w u := by
  simpa using front.append back

theorem before {u : Writer} (front : Draws sheet source marks w v)
    (back : Draws sheet source [] v u) : Draws sheet source marks w u := by
  simpa using front.append back

end Draws

theorem Writer.ready_of_last {w : Writer} (written : w.last ≠ none) (indent : Nat) :
    w.Ready indent :=
  fun nothing => absurd nothing written

namespace Sheet

variable (sheet : Sheet) {source : List Token}

def spelt (option : Option WordCase) (token : Token) : String :=
  if token.kind.isWordLike then
    match option with
    | some choice => choice.apply token.text
    | none => sheet.keywordText token
  else token.text

theorem cased_eq_spelt (token : Token) (last : Option Token) (beforeCall : Bool) :
    sheet.cased token last beforeCall =
      sheet.spelt (sheet.caseFor token last beforeCall) token := rfl

theorem spelling_spelt (option : Option WordCase) (token : Token) :
    Spelling token (sheet.spelt option token) := by
  unfold Spelling spelt
  split
  · cases option with
    | some choice => exact ⟨choice, .inl rfl⟩
    | none =>
      simp only [keywordText]
      split
      · exact ⟨.asIs, .inr (.inl rfl)⟩
      · exact ⟨_, .inr (.inr rfl)⟩
  · rfl

theorem spelling_cased (token : Token) (last : Option Token) (beforeCall : Bool) :
    Spelling token (sheet.cased token last beforeCall) :=
  sheet.spelling_spelt _ token

theorem draws_word (indent : Nat) (beforeCall : Bool) (mark : Mark) (w : Writer)
    (atStart : w.last = none → indent = 0) :
    Draws sheet source [mark] w (sheet.word indent beforeCall mark.token w) := by
  unfold word
  split
  · rename_i isComment
    exact .comment indent mark w (.inr isComment) atStart
  · rename_i isSolid
    exact .solid _ mark w (by simpa using isSolid)
      (sheet.spelling_cased mark.token w.last beforeCall)

theorem draws_token (indent : Nat) (token : Token) (w : Writer)
    (atStart : w.last = none → indent = 0) :
    Draws sheet source [.ofToken token] w (sheet.token indent token w) :=
  sheet.draws_word indent false (.ofToken token) w atStart

theorem draws_closing (indent : Nat) (token : Token) (w : Writer)
    (atStart : w.last = none → indent = 0) :
    Draws sheet source [⟨token, .parenClose⟩] w (sheet.token indent token w) :=
  sheet.draws_word indent false ⟨token, .parenClose⟩ w atStart

theorem draws_typeWord (token : Token) (w : Writer) (isWord : token.kind.isWordLike = true) :
    Draws sheet source [.ofToken token] w (sheet.typeWord token w) := by
  have isSolid : token.isComment = false := by
    unfold Token.isComment
    cases kind : token.kind <;> simp_all [Token.Kind.isWordLike]
  have spelling : Spelling token (sheet.style.dataTypeCase.apply token.text) := by
    rw [Spelling, if_pos isWord]
    exact ⟨_, .inl rfl⟩
  exact .solid _ (.ofToken token) w isSolid spelling

theorem draws_comma (w : Writer) : Draws sheet source [commaMark] w (punct commaToken w) :=
  .comma commaToken w rfl

theorem draws_lineBreakComma (indent : Nat) (w : Writer) (atStart : w.last = none → indent = 0) :
    Draws sheet source [commaMark] w (sheet.lineBreakComma indent w) := by
  unfold lineBreakComma
  split
  · exact (sheet.draws_comma w).before (.space _)
  · split
    · simp only
      split
      · exact (Draws.newline indent w atStart).after ((sheet.draws_comma _).before (.space _))
      · exact (Draws.newline indent w atStart).after (.leadingComma _)
    · exact (sheet.draws_comma w).before (.newline indent _ (by simp))

theorem draws_listComma (indent threshold index : Nat) (w : Writer) (later : index ≠ 0)
    (atStart : w.last = none → indent = 0) :
    Draws sheet source [commaMark] w (sheet.listComma indent threshold index w) := by
  rw [listComma, if_neg later]
  split
  · exact sheet.draws_lineBreakComma indent w atStart
  · exact (sheet.draws_comma w).before (.space _)

theorem draws_each {α : Type} {sheet : Sheet} {source : List Token}
    (draw : Nat → α → Writer → Writer) (part : α → List Mark) (indent : Nat) (entries : List α)
    (index : Nat) (w : Writer)
    (ready : w.Ready indent)
    (entry : ∀ place, index ≤ place → ∀ entry ∈ entries, ∀ v : Writer, v.Ready indent →
      Draws sheet source (part entry) v (draw place entry v)) :
    Draws sheet source (entries.flatMap part) w (Writer.each draw index entries w) := by
  induction entries generalizing index w with
  | nil => exact .done w
  | cons first rest ih =>
    have head := entry index (Nat.le_refl index) first (by simp) w ready
    rw [List.flatMap_cons]
    refine head.append (ih (index + 1) _ (head.ready ready) ?_)
    intro place later next member
    exact entry place (by omega) next (List.mem_cons_of_mem first member)

end Sheet

/-- A drawing behind which something has been written, so that lines may be indented. -/
structure Drawn (sheet : Sheet) (source : List Token) (marks : List Mark) (w v : Writer) :
    Prop where
  draws : Draws sheet source marks w v
  started : v.last ≠ none

/-- The painter draws the traces of all trees of the source below a height. -/
structure Paints (sheet : Sheet) (source : List Token) (height : Nat) (painter : Painter) :
    Prop where
  run : ∀ (mode : RunMode) (indent : Nat) (elements : List Element) (w : Writer),
    heightRun elements < height → collectRun elements ⊆ source → w.Ready indent →
      Draws sheet source (traceRun elements).marks w (painter.run mode indent elements w)
  statement : ∀ (base : Nat) (body : Statement) (w : Writer),
    body.height < height → body.collect ⊆ source → w.Ready base →
      Draws sheet source body.trace.marks w (painter.statement base body w)

namespace Drawn

variable {sheet : Sheet} {source : List Token} {marks : List Mark} {w v : Writer} {height : Nat}
  {painter : Painter}

theorem start (sheet : Sheet) (source : List Token) (written : w.last ≠ none) :
    Drawn sheet source [] w w :=
  ⟨.done w, written⟩

theorem first (indent : Nat) (token : Token) (atStart : w.last = none → indent = 0) :
    Drawn sheet source [.ofToken token] w (sheet.token indent token w) :=
  ⟨sheet.draws_token indent token w atStart, by simp⟩

theorem append {more : List Mark} {u : Writer} (front : Drawn sheet source marks w v)
    (back : Drawn sheet source more v u) : Drawn sheet source (marks ++ more) w u :=
  ⟨front.draws.append back.draws, back.started⟩

theorem step {more : List Mark} {u : Writer} (front : Drawn sheet source marks w v)
    (back : Draws sheet source more v u) : Drawn sheet source (marks ++ more) w u :=
  ⟨front.draws.append back, back.started (.inl front.started)⟩

theorem silent {u : Writer} (front : Drawn sheet source marks w v)
    (back : Draws sheet source [] v u) : Drawn sheet source marks w u :=
  ⟨front.draws.before back, back.started (.inl front.started)⟩

theorem newline (front : Drawn sheet source marks w v) (indent : Nat) :
    Drawn sheet source marks w (v.newline indent) :=
  front.silent (.newline indent v fun nothing => absurd nothing front.started)

theorem space (front : Drawn sheet source marks w v) : Drawn sheet source marks w v.space :=
  front.silent (.space v)

theorem padTo (front : Drawn sheet source marks w v) (column : Nat) :
    Drawn sheet source marks w (v.padTo column) :=
  front.silent (.padTo column v)

theorem enter (front : Drawn sheet source marks w v) (role : Role) :
    Drawn sheet source marks w (v.enter role) :=
  front.silent (.parens (role :: v.parens) v)

theorem leave (front : Drawn sheet source marks w v) : Drawn sheet source marks w v.leave :=
  front.silent (.parens v.parens.tail v)

theorem token (front : Drawn sheet source marks w v) (indent : Nat) (token : Token) :
    Drawn sheet source (marks ++ [.ofToken token]) w (sheet.token indent token v) :=
  front.append (first indent token fun nothing => absurd nothing front.started)

theorem closing (front : Drawn sheet source marks w v) (indent : Nat) (token : Token) :
    Drawn sheet source (marks ++ [⟨token, .parenClose⟩]) w (sheet.token indent token v) :=
  front.step (sheet.draws_closing indent token v fun nothing => absurd nothing front.started)

theorem opened (front : Drawn sheet source marks w v) (token : Token) :
    Drawn sheet source (marks ++ [⟨token, .parenOpen⟩]) w (Sheet.punct token v) :=
  front.step (.opening token v)

theorem closed (front : Drawn sheet source marks w v) (token : Token) :
    Drawn sheet source (marks ++ [⟨token, .parenClose⟩]) w (Sheet.punct token v) :=
  front.step (.closing token v)

theorem comma (front : Drawn sheet source marks w v) :
    Drawn sheet source (marks ++ [commaMark]) w (Sheet.punct commaToken v) :=
  front.step (sheet.draws_comma v)

theorem run (front : Drawn sheet source marks w v) (paints : Paints sheet source height painter)
    (mode : RunMode) (indent : Nat) (elements : List Element)
    (bound : heightRun elements < height) (inside : collectRun elements ⊆ source) :
    Drawn sheet source (marks ++ (traceRun elements).marks) w
      (painter.run mode indent elements v) :=
  front.step (paints.run mode indent elements v bound inside
    (Writer.ready_of_last front.started indent))

theorem statement (front : Drawn sheet source marks w v)
    (paints : Paints sheet source height painter) (base : Nat) (body : Statement)
    (bound : body.height < height) (inside : body.collect ⊆ source) :
    Drawn sheet source (marks ++ body.trace.marks) w (painter.statement base body v) :=
  front.step (paints.statement base body v bound inside
    (Writer.ready_of_last front.started base))

theorem each {α : Type} (front : Drawn sheet source marks w v) (draw : Nat → α → Writer → Writer)
    (part : α → List Mark) (index : Nat) (entries : List α)
    (entry : ∀ place, index ≤ place → ∀ entry ∈ entries, ∀ u : Writer, u.last ≠ none →
      Drawn sheet source (part entry) u (draw place entry u)) :
    Drawn sheet source (marks ++ entries.flatMap part) w (Writer.each draw index entries v) := by
  induction entries generalizing index marks v with
  | nil => simpa using front
  | cons first rest ih =>
    have head := front.append (entry index (Nat.le_refl index) first (by simp) v front.started)
    have tail := ih head (index + 1) fun place later next member =>
      entry place (by omega) next (List.mem_cons_of_mem first member)
    rw [List.flatMap_cons, ← List.append_assoc]
    exact tail

end Drawn

namespace Sheet

variable {sheet : Sheet} {source : List Token} {height : Nat} {painter : Painter}

theorem drawn_decode (paints : Paints sheet source height painter) (nameColumn : Nat)
    (group : Group) (w : Writer) (bound : heightRun group.elements < height)
    (inside : collectRun group.elements ⊆ source) :
    Drawn sheet source
      ([⟨group.opening, .parenOpen⟩] ++ (traceRun group.elements).marks ++
        [⟨group.closing, .parenClose⟩]) w (sheet.decode painter nameColumn group w) := by
  obtain ⟨first, others, cut⟩ : ∃ first others, cutCommas group.elements = (first, others) :=
    ⟨_, _, rfl⟩
  have whole := cutCommas_flatten group.elements
  rw [cut] at whole
  have small (part : List Element) (within : part ⊆ group.elements) :
      heightRun part < height ∧ collectRun part ⊆ source :=
    ⟨Nat.lt_of_le_of_lt (heightRun_le_of_subset part group.elements within) bound,
      List.Subset.trans (collectRun_subset part group.elements within) inside⟩
  have opened : Drawn sheet source [⟨group.opening, .parenOpen⟩] w
      ((punct group.opening w).enter .call) :=
    Drawn.enter ⟨.opening group.opening w, by simp⟩ .call
  have smallFirst := small first (by rw [← whole]; simp)
  have front := opened.run paints {} (punct group.opening w).column first smallFirst.1 smallFirst.2
  have arguments := front.each
    (fun place (part : Token × List Element) v =>
      painter.run {} (punct group.opening w).column part.2
        (if place % 2 = 1 then
          (if place = 0 then v else punct commaToken v).newline (punct group.opening w).column
        else if place = 0 then v else punct commaToken v))
    (fun part => .ofToken part.1 :: (traceRun part.2).marks) 1 others
    (by
      intro place later part member v started
      have within : part.2 ⊆ group.elements := by
        intro element held
        rw [← whole]
        exact List.mem_append_right _ (List.mem_flatMap.2 ⟨part, member, by simp [held]⟩)
      obtain ⟨lower, inner⟩ := small part.2 within
      have isComma := cutCommas_kind group.elements part (by rw [cut]; exact member)
      have comma : Drawn sheet source [.ofToken part.1] v (punct commaToken v) :=
        ⟨.comma part.1 v isComma, by simp⟩
      rw [if_neg (show place ≠ 0 by omega)]
      split
      · exact (comma.newline _).run paints {} _ part.2 lower inner
      · exact comma.run paints {} _ part.2 lower inner)
  rw [marks_cutCommas group.elements first others cut]
  simp only [decode, cut, Writer.each, Writer.each_map]
  have last := (arguments.leave.newline nameColumn).closing nameColumn group.closing
  simpa using last

theorem height_group (group : Group) :
    group.height =
      max (heightBody group.body) (max (heightRun group.elements) (heightRuns group.items)) + 1 := by
  cases group
  rw [Group.height]

theorem drawn_subquery (paints : Paints sheet source height painter) (indent : Nat) (block : Bool)
    (role : Role) (opening closing : Token) (body : Statement) (w : Writer)
    (bound : body.height < height) (inside : body.collect ⊆ source) :
    Drawn sheet source ([⟨opening, .parenOpen⟩] ++ body.trace.marks ++ [⟨closing, .parenClose⟩]) w
      (sheet.token indent closing
        (sheet.subquery painter block body ((punct opening w).enter role)).leave) := by
  have opened : Drawn sheet source [⟨opening, .parenOpen⟩] w ((punct opening w).enter role) :=
    Drawn.enter ⟨.opening opening w, by simp⟩ role
  unfold subquery
  split
  · exact (opened.statement paints _ body bound inside).leave.closing indent closing
  split
  · have block (outer : Nat) :=
      ((opened.newline (outer + 2)).statement paints (outer + 2) body bound inside).newline outer
    exact (block _).leave.closing indent closing
  split
  · rename_i text found
    unfold onOneLine? at found
    simp only at found
    split at found
    · simp at found
    · rename_i fits
      obtain rfl := Option.some.inj found
      have content := paints.statement 0 body { inline := true } bound inside
        (fun _ => ⟨rfl, rfl⟩)
      have whole : (painter.statement 0 body { inline := true }).broken = false := by
        simp only [Bool.or_eq_true, not_or, Bool.not_eq_true] at fits
        exact fits.1
      exact ⟨.inlined role indent opening closing w content whole, by simp⟩
  · exact (opened.statement paints _ body bound inside).leave.closing indent closing

theorem drawn_group (paints : Paints sheet source height painter) (indent : Nat) (block : Bool)
    (group : Group) (w : Writer) (bound : group.height ≤ height) (inside : group.collect ⊆ source) :
    Drawn sheet source group.trace.marks w (sheet.group painter indent block group w) := by
  rw [height_group] at bound
  have insideElements : collectRun group.elements ⊆ source := by
    grind [collect_group]
  have apartOrNot (apart : Bool) : Draws sheet source [] w (if apart then w.space else w) := by
    cases apart
    · exact .done w
    · exact .space w
  have shownRun (other : ¬(group.role = .subquery ∧ group.body.isSome)) :
      group.trace.marks = [⟨group.opening, .parenOpen⟩] ++ (traceRun group.elements).marks ++
        [⟨group.closing, .parenClose⟩] := by
    rw [trace_group, if_neg other]
    rfl
  unfold Sheet.group
  simp only
  split
  · rename_i name found
    have isCall : group.role = .call := by
      by_cases isCall : group.role = .call
      · exact isCall
      · simp [isCall] at found
    rw [shownRun (by simp [isCall])]
    exact drawn_decode paints _ group w (by omega) insideElements
  · rename_i missing
    generalize (if group.role = .call then w.last else none) = name
    have spaced := apartOrNot (name.all Token.isComment && sheet.needsSpace w group.opening)
    generalize (if (name.all Token.isComment && sheet.needsSpace w group.opening) = true
      then w.space else w) = v at spaced ⊢
    unfold content
    split
    · rename_i body isSubquery isBody
      have shown : group.trace.marks = [⟨group.opening, .parenOpen⟩] ++ body.trace.marks ++
          [⟨group.closing, .parenClose⟩] := by
        rw [trace_group, if_pos (by simp [isSubquery, isBody]), isBody, traceBody]
        rfl
      have small : body.height < height := by
        rw [isBody, heightBody] at bound
        omega
      have insideBody : body.collect ⊆ source := by
        grind [collect_group, collectBody]
      rw [shown]
      have inner := drawn_subquery paints indent block group.role group.opening group.closing body
        v small insideBody
      exact ⟨spaced.after inner.draws, inner.started⟩
    · rename_i other
      rw [shownRun (by
        rintro ⟨isSubquery, isBody⟩
        obtain ⟨body, found⟩ := Option.isSome_iff_exists.1 isBody
        exact other body isSubquery found)]
      have opened : Drawn sheet source [⟨group.opening, .parenOpen⟩] w
          ((punct group.opening v).enter group.role) :=
        Drawn.enter ⟨spaced.after (.opening group.opening v), by simp⟩ group.role
      exact (opened.run paints _ _ group.elements (by omega) insideElements).leave.closing indent
        group.closing

theorem drawn_branches (paints : Paints sheet source height painter) (column : Nat)
    (indent : Branch Element → Nat) (branches : List (Branch Element)) (w : Writer)
    (bound : heightBranches branches < height) (inside : collectBranches branches ⊆ source)
    (started : w.last ≠ none) :
    Drawn sheet source (traceBranches branches).marks w
      (Writer.each (fun _ branch v =>
        painter.run {} (indent branch) branch.elements
          (sheet.token column branch.keyword (v.newline column))) 0 branches w) := by
  rw [marks_traceBranches]
  refine (Drawn.start sheet source started).each _ _ 0 branches ?_
  intro place later branch member v startedThere
  have small := heightRun_le_branches member
  have within := List.Subset.trans (collectRun_subset_branches member) inside
  have line := ((Drawn.start sheet source startedThere).newline column).token column branch.keyword
  exact line.run paints {} (indent branch) branch.elements (by omega) within

theorem drawn_case (paints : Paints sheet source height painter) (case : Case Element) (w : Writer)
    (bound : (Element.case case).height ≤ height) (inside : (Element.case case).collect ⊆ source)
    (ready : w.Ready w.column) :
    Drawn sheet source (Element.case case).trace.marks w (sheet.caseExpression painter case w) := by
  obtain ⟨keyword, closing, depth, operand, branches⟩ := case
  rw [Element.height] at bound
  simp only [Element.collect, List.append_subset, List.cons_subset] at inside
  obtain ⟨⟨⟨-, insideOperand⟩, insideBranches⟩, -⟩ := inside
  have head : Drawn sheet source [.ofToken keyword] w (sheet.token w.column keyword w) :=
    .first w.column keyword fun nothing => (ready nothing).1
  have front := head.run paints {}
    ((sheet.token w.column keyword w).column - keyword.text.length + 5) operand (by omega)
    insideOperand
  have middle := front.append (drawn_branches paints
    ((sheet.token w.column keyword w).column - keyword.text.length + 2)
    (fun branch => (sheet.token w.column keyword w).column - keyword.text.length + 3 +
      branch.keyword.contents.length) branches _ (by omega) insideBranches front.started)
  rw [Element.trace]
  exact (middle.newline _).token _ closing

theorem draws_run (paints : Paints sheet source height painter) (mode : RunMode) (indent : Nat)
    (afterAs : Bool) (elements : List Element) (w : Writer) (bound : heightRun elements ≤ height)
    (inside : collectRun elements ⊆ source) (ready : w.Ready indent) :
    Draws sheet source (traceRun elements).marks w
      (sheet.runFrom painter mode indent afterAs elements w) := by
  induction elements generalizing afterAs w with
  | nil =>
    rw [traceRun]
    exact .done w
  | cons element rest ih =>
    rw [heightRun] at bound
    rw [collectRun_cons, List.append_subset] at inside
    have atStart (nothing : w.last = none) : indent = 0 := (ready nothing).1
    have onward (v : Writer) (afterAs : Bool) (head : Drawn sheet source element.trace.marks w v) :
        Draws sheet source (traceRun (element :: rest)).marks w
          (sheet.runFrom painter mode indent afterAs rest v) := by
      rw [traceRun]
      exact head.draws.append
        (ih afterAs v (by omega) inside.2 (Writer.ready_of_last head.started indent))
    cases element with
    | token token =>
      rw [runFrom]
      refine onward _ _ ?_
      rw [Element.trace]
      split
      · rename_i isType
        have isWord : token.kind.isWordLike = true := by simp_all
        exact ⟨sheet.draws_typeWord token w isWord, by simp⟩
      · exact ⟨sheet.draws_word indent _ (.ofToken token) w atStart, by simp⟩
    | group inner =>
      rw [Element.height] at bound
      rw [Element.collect] at inside
      rw [runFrom]
      refine onward _ _ ?_
      rw [Element.trace]
      exact drawn_group paints indent _ inner w (by omega) inside.1
    | case inner =>
      rw [runFrom]
      refine onward _ _ (drawn_case paints inner w (by omega) inside.1 ?_)
      intro nothing
      exact ⟨(ready nothing).2, (ready nothing).2⟩

end Sheet

end SqlLayout.Layout
