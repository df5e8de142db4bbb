import SqlLayout.Proofs.Drawing

/-! Two layouts of the same tree that differ in their blanks only. The face of a writer is what
it has written without blanks, and the token that it remembers; spaces, lines and columns do
not show on it. Two writers are abreast if they have added the same ink to what they started
from, and if what they remember has the same effect on the letters that follow. They need not
remember the same token: one may have drawn a statement on a line of its own or put a comma in
front of a line, but then both remember punctuation. Runs, groups and CASE expressions keep
two writers abreast; clauses and statements follow elsewhere. -/
namespace SqlLayout.Layout

open SqlLayout.Tree SqlLayout.Style

def ink (chars : List Char) : List Char :=
  chars.filter (!Text.isBlank ·)

@[simp] theorem ink_nil : ink [] = [] := rfl

@[simp] theorem ink_append (first second : List Char) :
    ink (first ++ second) = ink first ++ ink second :=
  List.filter_append first second

theorem ink_separator (piece : Piece) : ink piece.separator = [] := by
  have line : Text.isBlank '\n' = true := by decide
  have gap : Text.isBlank ' ' = true := by decide
  rw [Piece.separator, ink, List.filter_eq_nil_iff]
  intro c member
  rw [List.mem_append] at member
  rcases member with inLine | inGap
  · split at inLine
    · simp [List.mem_singleton.1 inLine, line]
    · simp at inLine
  · simp [List.eq_of_mem_replicate inGap, gap]

structure Face where
  ink : List Char
  last : Option Token

namespace Face

def add (text : String) (token : Token) (face : Face) : Face :=
  ⟨face.ink ++ Layout.ink text.toList, some token⟩

end Face

namespace Writer

def face (w : Writer) : Face :=
  ⟨ink w.chars, w.last⟩

@[simp] theorem face_ink (w : Writer) : w.face.ink = ink w.chars := rfl

@[simp] theorem face_last (w : Writer) : w.face.last = w.last := rfl

theorem face_eq {v w : Writer} (pieces : v.pieces = w.pieces) (last : v.last = w.last) :
    v.face = w.face := by
  rw [face, face, chars_eq_of_pieces pieces, last]

@[simp] theorem face_space (w : Writer) : w.space.face = w.face :=
  face_eq (pieces_spaces 1 w) (last_space w)

@[simp] theorem face_newline (indent : Nat) (w : Writer) : (w.newline indent).face = w.face :=
  face_eq (pieces_newline indent w) (last_newline indent w)

@[simp] theorem face_padTo (column : Nat) (w : Writer) : (w.padTo column).face = w.face :=
  face_eq (pieces_padTo column w) (last_padTo column w)

@[simp] theorem face_enter (role : Role) (w : Writer) : (w.enter role).face = w.face := rfl

@[simp] theorem face_leave (w : Writer) : w.leave.face = w.face := rfl

@[simp] theorem face_broken (broken : Bool) (w : Writer) :
    ({ w with broken := broken } : Writer).face = w.face := rfl

theorem face_settle (w : Writer) : w.settle.face = w.face := by
  unfold settle
  split
  · exact face_newline _ w
  · rfl

theorem face_write (text : String) (w : Writer) :
    (w.write text).face = ⟨w.face.ink ++ ink text.toList, w.last⟩ := by
  unfold write
  split
  · rename_i empty
    simp [empty, face]
  · have settled := face_settle w
    rw [face, face, Face.mk.injEq] at settled
    have separated := ink_separator ⟨w.settle.pendingBreak, w.settle.pendingSpaces, text⟩
    rw [face, chars_put, ink_append, settled.1, Piece.chars, ink_append, separated,
      List.nil_append]
    exact congrArg (Face.mk _) settled.2

theorem face_mark (token : Token) (unary : Bool) (w : Writer) :
    (w.mark token unary).face = ⟨w.face.ink, some token⟩ := rfl

theorem face_markAs (token : Token) (w : Writer) :
    (w.markAs token).face = ⟨w.face.ink, some token⟩ := rfl

@[simp] theorem face_endLineAfterComment (indent : Nat) (w : Writer) :
    (w.endLineAfterComment indent).face = w.face := rfl

theorem face_terminate (text : String) (w : Writer) :
    (w.terminate text).face = ⟨w.face.ink ++ ink text.toList, w.last⟩ := by
  rw [terminate, face_write]
  split
  · rw [face_newline, last_newline]
  · rfl

end Writer

namespace Sheet

open Writer

@[simp] theorem face_punct (token : Token) (w : Writer) :
    (punct token w).face = w.face.add token.text token := by
  rw [punct, face_mark, face_write]
  rfl

@[simp] theorem face_solid (sheet : Sheet) (text : String) (token : Token) (w : Writer) :
    (sheet.solid text token w).face = w.face.add text token := by
  rw [solid, face_mark, face_write, apply_ite Writer.face, face_space, ite_self]
  rfl

@[simp] theorem face_comment (sheet : Sheet) (indent : Nat) (token : Token) (w : Writer) :
    (sheet.comment indent token w).face = w.face.add token.text token := by
  rw [comment, apply_ite Writer.face, face_endLineAfterComment, ite_self, face_mark, face_write,
    apply_ite Writer.face, face_newline, face_space, ite_self]
  rfl

theorem face_word (sheet : Sheet) (indent : Nat) (beforeCall : Bool) (token : Token)
    (w : Writer) :
    (sheet.word indent beforeCall token w).face =
      w.face.add (sheet.cased token w.last beforeCall) token := by
  unfold word
  split
  · rename_i isComment
    have text : sheet.cased token w.last beforeCall = token.text := by
      rw [cased, if_neg]
      simp only [Token.isComment, decide_eq_true_eq] at isComment
      simp [isComment, Token.Kind.isWordLike]
    rw [face_comment, text]
  · exact face_solid sheet _ token w

theorem face_token (sheet : Sheet) (indent : Nat) (token : Token) (w : Writer) :
    (sheet.token indent token w).face = w.face.add (sheet.cased token w.last false) token :=
  sheet.face_word indent false token w

theorem face_typeWord (sheet : Sheet) (token : Token) (w : Writer) :
    (sheet.typeWord token w).face =
      w.face.add (sheet.style.dataTypeCase.apply token.text) token :=
  sheet.face_solid _ token w

end Sheet

/-- Sheets that put words into the same case; they may differ in everything else. -/
structure SameLetters (left right : Sheet) : Prop where
  keywords : left.style.keywordCase = right.style.keywordCase
  identifiers : left.style.identifierCase = right.style.identifierCase
  functions : left.style.functionCase = right.style.functionCase
  dataTypes : left.style.dataTypeCase = right.style.dataTypeCase
  separator : left.style.catalogSeparator = right.style.catalogSeparator
  functionNames : left.style.functionNames = right.style.functionNames
  columnNames : left.style.addColumnNameComments = right.style.addColumnNameComments
  registry : left.registry = right.registry

structure Neutral (token : Token) : Prop where
  kind : token.kind ≠ .operator
  decodes : Text.upper token.text ≠ "DECODE"
  casts : castFunctions.contains (Text.upper token.contents) = false

/-- DECODE is no function that converts. -/
def Honest (token : Token) : Prop :=
  Text.upper token.text = "DECODE" → castFunctions.contains (Text.upper token.contents) = false

theorem Neutral.honest {token : Token} (neutral : Neutral token) : Honest token :=
  fun _ => neutral.casts

theorem neutral_comma : Neutral commaToken :=
  ⟨by decide, by decide +kernel, by decide +kernel⟩

theorem neutral_open : Neutral openToken :=
  ⟨by decide, by decide +kernel, by decide +kernel⟩

/-- Two remembered tokens with the same effect on what follows. -/
def Alike (first second : Option Token) : Prop :=
  (∃ token, Honest token ∧ first = some token ∧ second = some token) ∨
    ((∀ token ∈ first, Neutral token) ∧ ∀ token ∈ second, Neutral token)

theorem Alike.same (token : Token) (honest : Honest token) : Alike (some token) (some token) :=
  .inl ⟨token, honest, rfl, rfl⟩

theorem SameLetters.cased_eq {left right : Sheet} (letters : SameLetters left right)
    (token : Token) (beforeCall : Bool) {first second : Option Token}
    (alike : Alike first second) :
    left.cased token first beforeCall = right.cased token second beforeCall := by
  have texts : left.keywordText token = right.keywordText token := by
    rw [Sheet.keywordText, Sheet.keywordText, letters.keywords]
  have separates (text : String) : left.isSeparator text = right.isSeparator text := by
    rw [Sheet.isSeparator, Sheet.isSeparator, letters.separator]
  have choices : left.caseFor token first beforeCall = right.caseFor token second beforeCall := by
    rcases alike with ⟨other, -, rfl, rfl⟩ | ⟨plainLeft, plainRight⟩
    · simp only [Sheet.caseFor, separates, letters.identifiers, letters.functions,
        letters.dataTypes, letters.functionNames, letters.registry]
    · have none (last : Option Token) (plain : ∀ token ∈ last, Neutral token) :
          last.filter (fun last => last.kind = .operator) = none := by
        cases last with
        | none => rfl
        | some other => simp [Option.filter, (plain other rfl).kind]
      simp only [Sheet.caseFor, none first plainLeft, none second plainRight, Option.any_none,
        letters.identifiers, letters.functions, letters.dataTypes, letters.functionNames,
        letters.registry]
  rw [Sheet.cased, Sheet.cased, choices, texts]

/-- Two writers that have written the same ink since they had written the two texts of the
origin, and whose next words look the same. -/
structure Abreast (origin : List Char × List Char) (v w : Writer) : Prop where
  written : ∃ added, v.face.ink = origin.1 ++ added ∧ w.face.ink = origin.2 ++ added
  last : Alike v.last w.last

namespace Abreast

variable {origin : List Char × List Char} {v w : Writer} {left right : Sheet}

theorem of_face (abreast : Abreast origin v w) {v' w' : Writer} (first : v'.face = v.face)
    (second : w'.face = w.face) : Abreast origin v' w' where
  written := by
    rw [first, second]
    exact abreast.written
  last := by
    rw [← v'.face_last, ← w'.face_last, first, second]
    exact abreast.last

theorem start (v w : Writer) (alike : Alike v.last w.last) :
    Abreast (v.face.ink, w.face.ink) v w where
  written := ⟨[], by simp, by simp⟩
  last := alike

theorem extend (abreast : Abreast origin v w) {v' w' : Writer} (more : List Char)
    (first : v'.face.ink = v.face.ink ++ more) (second : w'.face.ink = w.face.ink ++ more)
    (alike : Alike v'.last w'.last) : Abreast origin v' w' where
  written := by
    obtain ⟨added, before, after⟩ := abreast.written
    refine ⟨added ++ more, ?_, ?_⟩
    · rw [first, before, List.append_assoc]
    · rw [second, after, List.append_assoc]
  last := alike

theorem add (abreast : Abreast origin v w) {v' w' : Writer} (text : String) (token : Token)
    (honest : Honest token) (first : v'.face = v.face.add text token)
    (second : w'.face = w.face.add text token) : Abreast origin v' w' := by
  refine abreast.extend (ink text.toList) (congrArg Face.ink first) (congrArg Face.ink second) ?_
  have lastFirst : v'.last = some token := congrArg Face.last first
  have lastSecond : w'.last = some token := congrArg Face.last second
  rw [lastFirst, lastSecond]
  exact .same token honest

theorem punct (abreast : Abreast origin v w) (token : Token) (honest : Honest token) :
    Abreast origin (Sheet.punct token v) (Sheet.punct token w) :=
  abreast.add token.text token honest (Sheet.face_punct token v) (Sheet.face_punct token w)

theorem comment (abreast : Abreast origin v w) {indent column : Nat} (token : Token)
    (honest : Honest token) :
    Abreast origin (left.comment indent token v) (right.comment column token w) :=
  abreast.add token.text token honest (left.face_comment indent token v)
    (right.face_comment column token w)

theorem word (abreast : Abreast origin v w) (letters : SameLetters left right)
    {indent column : Nat} (beforeCall : Bool) (token : Token) (honest : Honest token) :
    Abreast origin (left.word indent beforeCall token v) (right.word column beforeCall token w) := by
  refine abreast.add _ token honest (left.face_word indent beforeCall token v) ?_
  rw [letters.cased_eq token beforeCall abreast.last]
  exact right.face_word column beforeCall token w

theorem token (abreast : Abreast origin v w) (letters : SameLetters left right)
    {indent column : Nat} (token : Token) (honest : Honest token) :
    Abreast origin (left.token indent token v) (right.token column token w) :=
  abreast.word letters false token honest

theorem typeWord (abreast : Abreast origin v w) (letters : SameLetters left right) (token : Token)
    (honest : Honest token) : Abreast origin (left.typeWord token v) (right.typeWord token w) := by
  refine abreast.add _ token honest (left.face_typeWord token v) ?_
  rw [letters.dataTypes]
  exact right.face_typeWord token w

theorem newline (abreast : Abreast origin v w) {indent column : Nat} :
    Abreast origin (v.newline indent) (w.newline column) :=
  abreast.of_face (Writer.face_newline indent v) (Writer.face_newline column w)

theorem padTo (abreast : Abreast origin v w) {indent column : Nat} :
    Abreast origin (v.padTo indent) (w.padTo column) :=
  abreast.of_face (Writer.face_padTo indent v) (Writer.face_padTo column w)

theorem space (abreast : Abreast origin v w) : Abreast origin v.space w.space :=
  abreast.of_face (Writer.face_space v) (Writer.face_space w)

theorem closing {indent column : Nat} (token : Token) (kind : token.kind = .parenClose)
    (honest : Honest token) (added : List Char) (before : v.face.ink = origin.1 ++ added)
    (after : w.face.ink = origin.2 ++ added) :
    Abreast origin (left.token indent token v) (right.token column token w) := by
  have text (sheet : Sheet) (last : Option Token) : sheet.cased token last false = token.text := by
    rw [Sheet.cased, if_neg (by simp [kind, Token.Kind.isWordLike])]
  have faceFirst := left.face_token indent token v
  have faceSecond := right.face_token column token w
  rw [text] at faceFirst faceSecond
  refine ⟨⟨added ++ ink token.text.toList, ?_, ?_⟩, ?_⟩
  · rw [faceFirst, Face.add, before, List.append_assoc]
  · rw [faceSecond, Face.add, after, List.append_assoc]
  · rw [Sheet.last_token, Sheet.last_token]
    exact .same token honest

theorem each {α : Type} (abreast : Abreast origin v w)
    (drawLeft drawRight : Nat → α → Writer → Writer) (index : Nat) (entries : List α)
    (entry : ∀ place, ∀ entry ∈ entries, ∀ v w : Writer, Abreast origin v w →
      Abreast origin (drawLeft place entry v) (drawRight place entry w)) :
    Abreast origin (Writer.each drawLeft index entries v)
      (Writer.each drawRight index entries w) := by
  induction entries generalizing index v w with
  | nil => exact abreast
  | cons first rest ih =>
    exact ih (entry index first (by simp) v w abreast) (index + 1) fun place next member =>
      entry place next (List.mem_cons_of_mem first member)

end Abreast

structure Genuine (mark : Mark) : Prop where
  kind : mark.token.kind = mark.kind
  punctuation : mark.kind = .parenOpen ∨ mark.kind = .comma → Neutral mark.token
  comma : mark.kind = .comma → mark.token.text = ","
  honest : Honest mark.token

structure Drawable (height : Nat) (elements : List Element) : Prop where
  bound : heightRun elements < height
  genuine : ∀ mark ∈ (traceRun elements).marks, Genuine mark

namespace Drawable

variable {height : Nat}

theorem of_subset {elements part : List Element} (drawable : Drawable height elements)
    (subset : part ⊆ elements) : Drawable height part where
  bound := Nat.lt_of_le_of_lt (heightRun_le_of_subset part elements subset) drawable.bound
  genuine := by
    have inside (run : List Element) (mark : Mark) :
        mark ∈ (traceRun run).marks ↔ ∃ element ∈ run, mark ∈ element.trace.marks := by
      induction run with
      | nil => simp [traceRun]
      | cons element rest ih => simp [traceRun, ih]
    intro mark member
    obtain ⟨element, held, shown⟩ := (inside part mark).1 member
    exact drawable.genuine mark ((inside elements mark).2 ⟨element, subset held, shown⟩)

theorem token {token : Token} {rest : List Element}
    (drawable : Drawable height (.token token :: rest)) : Genuine (.ofToken token) :=
  drawable.genuine _ (by simp [traceRun, Element.trace])

end Drawable

/-- Painters that keep writers abreast, and draw a run comma by comma. -/
structure Paired (height : Nat) (left right : Painter) : Prop where
  run : ∀ (origin : List Char × List Char) (v w : Writer) (first second : RunMode)
    (indent column : Nat) (elements : List Element),
    Abreast origin v w → first.typeAfterAs = second.typeAfterAs → Drawable height elements →
      Abreast origin (left.run first indent elements v) (right.run second column elements w)
  statement : ∀ (origin : List Char × List Char) (v w : Writer) (base column : Nat)
    (body : Statement), Abreast origin v w → body.height < height →
      (∀ mark ∈ body.trace.marks, Genuine mark) →
      Abreast origin (left.statement base body v) (right.statement column body w)

/-- Drawing a run up to a comma and on from there, the comma being a token like any other. -/
def Painter.Halts (painter : Painter) : Prop :=
  ∀ (mode : RunMode) (indent : Nat) (before after : List Element) (comma : Token) (w : Writer),
    comma.kind = .comma →
    ∃ v : Writer, v.face = (painter.run mode indent before w).face.add comma.text comma ∧
      painter.run mode indent (before ++ .token comma :: after) w =
        painter.run mode indent after v

def Spread (painter : Painter) : List (Token × List Element) → Writer → Writer → Prop
  | [], w, v => v = w
  | part :: rest, w, v =>
    ∃ (mode : RunMode) (indent : Nat) (u : Writer), mode.typeAfterAs = false ∧
      u.face.ink = w.face.ink ++ [','] ∧ (∀ token ∈ u.last, Neutral token) ∧
      Spread painter rest (painter.run mode indent part.2 u) v

namespace Abreast

variable {origin : List Char × List Char} {v w : Writer} {height : Nat}
  {leftPainter rightPainter : Painter}

theorem run (abreast : Abreast origin v w) (paired : Paired height leftPainter rightPainter)
    {first second : RunMode} {indent column : Nat} (elements : List Element)
    (types : first.typeAfterAs = second.typeAfterAs) (drawable : Drawable height elements) :
    Abreast origin (leftPainter.run first indent elements v)
      (rightPainter.run second column elements w) :=
  paired.run origin v w first second indent column elements abreast types drawable

theorem spread (abreast : Abreast origin v w) (paired : Paired height leftPainter rightPainter)
    (parts : List (Token × List Element)) (drawable : ∀ part ∈ parts, Drawable height part.2)
    {v' w' : Writer} (first : Spread leftPainter parts v v')
    (second : Spread rightPainter parts w w') : Abreast origin v' w' := by
  induction parts generalizing v w with
  | nil =>
    rw [Spread] at first second
    rw [first, second]
    exact abreast
  | cons part rest ih =>
    obtain ⟨mode, indent, next, plain, comma, neutral, onward⟩ := first
    obtain ⟨other, column, following, plainToo, commaToo, neutralToo, onwardToo⟩ := second
    have between : Abreast origin next following :=
      abreast.extend [','] comma commaToo (.inr ⟨neutral, neutralToo⟩)
    have drawn := paired.run origin next following mode other indent column part.2 between
      (plain.trans plainToo.symm) (drawable part (by simp))
    exact ih drawn (fun entry member => drawable entry (List.mem_cons_of_mem part member)) onward
      onwardToo

end Abreast

namespace Sheet

variable {left right : Sheet} {height : Nat} {painter leftPainter rightPainter : Painter}
  {origin : List Char × List Char} {v w : Writer}

theorem ink_comma : ink ",".toList = [','] := by decide

theorem spread_run (halts : painter.Halts) (mode : RunMode)
    (plain : mode.typeAfterAs = false) (indent : Nat) (first : List Element)
    (others : List (Token × List Element))
    (commas : ∀ part ∈ others, part.1.kind = .comma ∧ part.1.text = "," ∧ Neutral part.1)
    (w : Writer) :
    Spread painter others (painter.run mode indent first w)
      (painter.run mode indent
        (first ++ others.flatMap fun part => .token part.1 :: part.2) w) := by
  induction others generalizing first w with
  | nil =>
    rw [List.flatMap_nil, List.append_nil]
    exact rfl
  | cons part rest ih =>
    obtain ⟨comma, argument⟩ := part
    obtain ⟨kind, text, neutral⟩ := commas (comma, argument) (by simp)
    obtain ⟨u, face, onward⟩ := halts mode indent first
      (argument ++ rest.flatMap fun part => .token part.1 :: part.2) comma w kind
    rw [List.flatMap_cons, List.cons_append, onward]
    refine ⟨mode, indent, u, plain, ?_, ?_, ?_⟩
    · rw [face, Face.add, text, ink_comma]
    · intro token found
      have last : u.last = some comma := congrArg Face.last face
      rw [last, Option.mem_some] at found
      rw [← found]
      exact neutral
    · exact ih argument (fun part member => commas part (List.mem_cons_of_mem _ member)) u

theorem spread_decode (column : Nat) (others : List (Token × List Element)) (index : Nat)
    (later : index ≠ 0) (w : Writer) :
    Spread painter others w
      (Writer.each (fun place (argument : List Element) v =>
        painter.run {} column argument
          (if place % 2 = 1 then
            (if place = 0 then v else punct commaToken v).newline column
          else if place = 0 then v else punct commaToken v)) index (others.map Prod.snd) w) := by
  induction others generalizing index w with
  | nil => exact rfl
  | cons part rest ih =>
    refine ⟨{}, column, _, rfl, ?_, ?_, ih (index + 1) (by omega) _⟩
    · rw [if_neg later, apply_ite Writer.face, Writer.face_newline, ite_self, face_punct]
      rfl
    · rw [if_neg later, apply_ite Writer.last, Writer.last_newline, ite_self, last_punct]
      intro token found
      rw [← Option.some.inj found]
      exact neutral_comma

theorem group_arguments (sheet : Sheet) (halts : painter.Halts) (indent : Nat) (block : Bool)
    (group : Group) (isCall : group.role = .call) (filled : group.elements ≠ []) (name : Token)
    (decodes : Text.upper name.text = "DECODE") (honest : Honest name) (w : Writer)
    (named : w.last = some name)
    (commas : ∀ part ∈ (cutCommas group.elements).2,
      part.1.kind = .comma ∧ part.1.text = "," ∧ Neutral part.1) :
    ∃ (mode : RunMode) (inner column : Nat) (u v x : Writer), mode.typeAfterAs = false ∧
      u.face = w.face.add group.opening.text group.opening ∧
      Spread painter (cutCommas group.elements).2
        (painter.run mode inner (cutCommas group.elements).1 u) v ∧
      x.face = v.face ∧
      sheet.group painter indent block group w = sheet.token column group.closing x := by
  have isFilled : group.elements.isEmpty = false := by simpa using filled
  unfold Sheet.group
  simp only [if_pos isCall, named]
  cases inline : w.inline with
  | false =>
    simp only [Option.filter, decodes, isFilled, decide_true, Bool.not_false, Bool.and_self,
      if_true, decode, Writer.each]
    have rest := @spread_decode painter (punct group.opening w).column
      (cutCommas group.elements).2 1 (by omega)
      (painter.run {} (punct group.opening w).column (cutCommas group.elements).1
        ((punct group.opening w).enter .call))
    refine ⟨{}, _, _, _, _, _, rfl, ?_, rest, ?_, rfl⟩
    · rw [Writer.face_enter, face_punct]
    · rw [Writer.face_newline, Writer.face_leave]
      rfl
  | true =>
    have plain : castFunctions.contains (Text.upper name.contents) = false := honest decodes
    simp only [Option.filter, decodes, isFilled, decide_true, Bool.not_false, Bool.not_true,
      Bool.and_false, Bool.false_eq_true, if_false, content, isCall, Option.any_some, plain]
    have rest := spread_run halts { typeAfterAs := false } rfl
      (Writer.column ((punct group.opening
        (if (Option.all Token.isComment (some name) && sheet.needsSpace w group.opening) = true
          then w.space else w)).enter .call)) (cutCommas group.elements).1
      (cutCommas group.elements).2 commas
      ((punct group.opening
        (if (Option.all Token.isComment (some name) && sheet.needsSpace w group.opening) = true
          then w.space else w)).enter .call)
    rw [cutCommas_flatten] at rest
    refine ⟨_, _, _, _, _, _, rfl, ?_, rest, ?_, rfl⟩
    · rw [Writer.face_enter, face_punct, apply_ite Writer.face, Writer.face_space, ite_self]
    · rw [Writer.face_leave]

/-- A statement in a group adds what it adds from some writer that remembers the same or
nothing. -/
theorem subquery_from (sheet : Sheet) (painter : Painter) (block : Bool) (body : Statement)
    (w : Writer) :
    ∃ (base : Nat) (u : Writer), (u.last = w.last ∨ u.last = none) ∧
      ∀ added, (painter.statement base body u).face.ink = u.face.ink ++ added →
        (sheet.subquery painter block body w).face.ink = w.face.ink ++ added := by
  unfold subquery
  split
  · exact ⟨w.column, w, .inl rfl, fun added same => same⟩
  split
  · refine ⟨w.indent + 2, w.newline (w.indent + 2), .inl (Writer.last_newline _ w), ?_⟩
    intro added same
    rw [Writer.face_newline, same, Writer.face_newline]
  split
  · rename_i text found
    unfold onOneLine? at found
    simp only at found
    split at found
    · simp at found
    · obtain rfl := Option.some.inj found
      refine ⟨0, { inline := true }, .inr rfl, ?_⟩
      intro added same
      rw [Writer.face_markAs, Writer.face_write, Writer.text, String.toList_ofList]
      rw [Writer.face_ink] at same
      rw [same]
      rfl
  · exact ⟨w.column, w, .inl rfl, fun added same => same⟩

theorem abreast_subquery (paired : Paired height leftPainter rightPainter)
    (abreast : Abreast origin v w) (indent column : Nat) (block other : Bool) (role : Role)
    (opening closing : Token) (body : Statement) (bound : body.height < height)
    (genuine : ∀ mark ∈ body.trace.marks, Genuine mark) (neutral : Neutral opening)
    (kind : closing.kind = .parenClose) (honest : Honest closing) :
    Abreast origin
      (left.token indent closing
        (left.subquery leftPainter block body ((punct opening v).enter role)).leave)
      (right.token column closing
        (right.subquery rightPainter other body ((punct opening w).enter role)).leave) := by
  have opened := abreast.punct opening neutral.honest
  obtain ⟨base, u, remembered, added⟩ :=
    subquery_from left leftPainter block body ((punct opening v).enter role)
  obtain ⟨baseToo, x, rememberedToo, addedToo⟩ :=
    subquery_from right rightPainter other body ((punct opening w).enter role)
  have plain (last : Option Token) (found : last = some opening ∨ last = none) :
      ∀ token ∈ last, Neutral token := by
    intro token member
    rcases found with same | nothing
    · rw [same, Option.mem_some] at member
      rw [← member]
      exact neutral
    · rw [nothing] at member
      simp at member
  have anew := paired.statement _ u x base baseToo body
    (.start u x (.inr ⟨plain _ remembered, plain _ rememberedToo⟩)) bound genuine
  obtain ⟨more, first, second⟩ := anew.written
  obtain ⟨before, start, startToo⟩ := opened.written
  refine Abreast.closing closing kind honest (before ++ more) ?_ ?_
  · rw [Writer.face_leave, added more first, Writer.face_enter, start, List.append_assoc]
  · rw [Writer.face_leave, addedToo more second, Writer.face_enter, startToo, List.append_assoc]

theorem genuine_group (group : Group) (genuine : ∀ mark ∈ group.trace.marks, Genuine mark) :
    Genuine ⟨group.opening, .parenOpen⟩ ∧ Genuine ⟨group.closing, .parenClose⟩ := by
  rw [trace_group] at genuine
  exact ⟨genuine _ (by simp), genuine _ (by simp)⟩

theorem genuine_commas (elements : List Element)
    (genuine : ∀ mark ∈ (traceRun elements).marks, Genuine mark)
    (part : Token × List Element) (member : part ∈ (cutCommas elements).2) :
    part.1.kind = .comma ∧ part.1.text = "," ∧ Neutral part.1 := by
  have kind := cutCommas_kind elements part member
  have mark : Genuine (.ofToken part.1) := by
    refine genuine _ ?_
    rw [marks_cutCommas elements _ _ rfl]
    exact List.mem_append_right _ (List.mem_flatMap.2 ⟨part, member, by simp⟩)
  exact ⟨kind, mark.comma kind, mark.punctuation (.inr kind)⟩

theorem cutCommas_subset (elements : List Element) :
    (cutCommas elements).1 ⊆ elements ∧
      ∀ part ∈ (cutCommas elements).2, part.2 ⊆ elements := by
  have whole := cutCommas_flatten elements
  constructor
  · intro element member
    rw [← whole]
    exact List.mem_append_left _ member
  · intro part member element held
    rw [← whole]
    exact List.mem_append_right _ (List.mem_flatMap.2 ⟨part, member, by simp [held]⟩)

theorem abreast_content (letters : SameLetters left right)
    (paired : Paired height leftPainter rightPainter) (abreast : Abreast origin v w)
    (indent column : Nat) (block other : Bool) (first second : Option Token) (group : Group)
    (bound : group.height ≤ height) (genuine : ∀ mark ∈ group.trace.marks, Genuine mark)
    (casts : first.any (fun name => castFunctions.contains (Text.upper name.contents)) =
      second.any fun name => castFunctions.contains (Text.upper name.contents)) :
    Abreast origin
      (left.token indent group.closing
        (left.content leftPainter block first group
          ((punct group.opening v).enter group.role)).leave)
      (right.token column group.closing
        (right.content rightPainter other second group
          ((punct group.opening w).enter group.role)).leave) := by
  obtain ⟨opening, closing⟩ := genuine_group group genuine
  rw [height_group] at bound
  unfold content
  split
  · rename_i body isSubquery isBody
    rw [isBody, heightBody] at bound
    refine abreast_subquery paired abreast indent column block other group.role
      group.opening group.closing body (by omega) ?_ (opening.punctuation (.inl rfl)) closing.kind
      closing.honest
    intro mark member
    refine genuine mark ?_
    rw [trace_group, if_pos (by simp [isSubquery, isBody]), isBody, traceBody]
    simp [member]
  · rename_i otherwise
    have drawable : Drawable height group.elements := by
      refine ⟨by omega, fun mark member => genuine mark ?_⟩
      have isRun : ¬(group.role = .subquery ∧ group.body.isSome) := by
        rintro ⟨isSubquery, isBody⟩
        obtain ⟨body, found⟩ := Option.isSome_iff_exists.1 isBody
        exact otherwise body isSubquery found
      rw [trace_group, if_neg isRun]
      simp [member]
    have opened := (abreast.punct group.opening opening.honest).of_face
      (Writer.face_enter group.role _) (Writer.face_enter group.role _)
    have drawn := paired.run origin _ _ { typeAfterAs := _ } { typeAfterAs := _ }
      (Writer.column ((punct group.opening v).enter group.role))
      (Writer.column ((punct group.opening w).enter group.role)) group.elements opened casts
      drawable
    exact (drawn.of_face (Writer.face_leave _) (Writer.face_leave _)).token letters
      group.closing closing.honest

theorem abreast_group (letters : SameLetters left right)
    (paired : Paired height leftPainter rightPainter) (haltsLeft : 0 < height → leftPainter.Halts)
    (haltsRight : 0 < height → rightPainter.Halts) (abreast : Abreast origin v w)
    (indent column : Nat) (block other : Bool) (group : Group) (bound : group.height ≤ height)
    (genuine : ∀ mark ∈ group.trace.marks, Genuine mark) :
    Abreast origin (left.group leftPainter indent block group v)
      (right.group rightPainter column other group w) := by
  obtain ⟨opening, closing⟩ := genuine_group group genuine
  -- Without a call of DECODE both sides draw the content between the parentheses.
  have plain (first second : Option Token)
      (nameLeft : (if group.role = .call then v.last else none) = first)
      (nameRight : (if group.role = .call then w.last else none) = second)
      (casts : first.any (fun name => castFunctions.contains (Text.upper name.contents)) =
        second.any fun name => castFunctions.contains (Text.upper name.contents))
      (notLeft : ∀ name ∈ first, ¬(Text.upper name.text = "DECODE" ∧ group.elements ≠ []))
      (notRight : ∀ name ∈ second, ¬(Text.upper name.text = "DECODE" ∧ group.elements ≠ [])) :
      Abreast origin (left.group leftPainter indent block group v)
        (right.group rightPainter column other group w) := by
    have unfiltered (name : Option Token) (inline : Bool)
        (not : ∀ token ∈ name, ¬(Text.upper token.text = "DECODE" ∧ group.elements ≠ [])) :
        name.filter (fun token => Text.upper token.text = "DECODE" && !group.elements.isEmpty &&
          !inline) = none := by
      cases name with
      | none => rfl
      | some token =>
        have away := not token rfl
        simp only [Option.filter_eq_none_iff, Option.some.injEq]
        rintro _ rfl
        simp only [Bool.and_eq_true, decide_eq_true_eq, Bool.not_eq_true', not_and]
        intro decodes
        simp_all
    unfold Sheet.group
    simp only
    rw [nameLeft, nameRight, unfiltered first v.inline notLeft, unfiltered second w.inline notRight]
    simp only
    refine abreast_content letters paired (abreast.of_face ?_ ?_) indent column block other first
      second group bound genuine casts
    · rw [apply_ite Writer.face, Writer.face_space, ite_self]
    · rw [apply_ite Writer.face, Writer.face_space, ite_self]
  by_cases isCall : group.role = .call
  · rcases abreast.last with ⟨name, honest, named, namedToo⟩ | ⟨neutral, neutralToo⟩
    · by_cases decodes : Text.upper name.text = "DECODE" ∧ group.elements ≠ []
      · have drawable : Drawable height group.elements := by
          rw [height_group] at bound
          refine ⟨by omega, fun mark member => genuine mark ?_⟩
          rw [trace_group, if_neg (by simp [isCall])]
          simp [member]
        have positive : 0 < height := Nat.zero_lt_of_lt drawable.bound
        have commas := genuine_commas group.elements drawable.genuine
        obtain ⟨mode, inner, place, u, x, y, noType, opened, spread, same, drawn⟩ :=
          group_arguments left (haltsLeft positive) indent block group isCall decodes.2 name
            decodes.1 honest v named commas
        obtain ⟨modeToo, innerToo, placeToo, uToo, xToo, yToo, noTypeToo, openedToo, spreadToo,
          sameToo, drawnToo⟩ :=
          group_arguments right (haltsRight positive) column other group isCall decodes.2 name
            decodes.1 honest w namedToo commas
        have subsets := cutCommas_subset group.elements
        have front := paired.run origin u uToo mode modeToo inner innerToo
          (cutCommas group.elements).1
          (abreast.add group.opening.text group.opening opening.honest opened openedToo)
          (noType.trans noTypeToo.symm) (drawable.of_subset subsets.1)
        have behind := front.spread paired (cutCommas group.elements).2
          (fun part member => drawable.of_subset (subsets.2 part member)) spread spreadToo
        rw [drawn, drawnToo]
        exact (behind.of_face same sameToo).token letters group.closing
          closing.honest
      · refine plain (some name) (some name) ((if_pos isCall).trans named)
          ((if_pos isCall).trans namedToo) rfl ?_ ?_
        · rintro _ ⟨⟩
          exact decodes
        · rintro _ ⟨⟩
          exact decodes
    · have casts (last : Option Token) (plain : ∀ token ∈ last, Neutral token) :
          last.any (fun name => castFunctions.contains (Text.upper name.contents)) = false := by
        cases last with
        | none => rfl
        | some token => exact (plain token rfl).casts
      refine plain v.last w.last (if_pos isCall) (if_pos isCall)
        ((casts _ neutral).trans (casts _ neutralToo).symm) ?_ ?_
      · intro name member decodes
        exact (neutral name member).decodes decodes.1
      · intro name member decodes
        exact (neutralToo name member).decodes decodes.1
  · exact plain none none (if_neg isCall) (if_neg isCall) rfl (by simp) (by simp)

theorem branch_of (branches : List (Branch Element)) (bound : heightBranches branches < height)
    (genuine : ∀ mark ∈ branches.flatMap fun branch =>
      .ofToken branch.keyword :: (traceRun branch.elements).marks, Genuine mark)
    (branch : Branch Element) (member : branch ∈ branches) :
    Honest branch.keyword ∧ Drawable height branch.elements := by
  have small := heightRun_le_branches member
  have marks (mark : Mark) (inside : mark ∈ Mark.ofToken branch.keyword ::
      (traceRun branch.elements).marks) : Genuine mark :=
    genuine mark (List.mem_flatMap.2 ⟨branch, member, inside⟩)
  exact ⟨(marks (.ofToken branch.keyword) (by simp)).honest,
    ⟨by omega, fun mark inside => marks mark (by simp [inside])⟩⟩

theorem abreast_case (letters : SameLetters left right)
    (paired : Paired height leftPainter rightPainter) (abreast : Abreast origin v w)
    (case : Case Element) (bound : (Element.case case).height ≤ height)
    (genuine : ∀ mark ∈ (Element.case case).trace.marks, Genuine mark) :
    Abreast origin (left.caseExpression leftPainter case v)
      (right.caseExpression rightPainter case w) := by
  obtain ⟨keyword, closing, depth, operand, branches⟩ := case
  rw [Element.height] at bound
  simp only [Element.trace, Trace.marks_append, Trace.marks_ofToken, List.mem_append,
    List.mem_singleton, or_imp, forall_and, forall_eq, marks_traceBranches] at genuine
  obtain ⟨⟨⟨first, inOperand⟩, inBranches⟩, last⟩ := genuine
  have inside : Drawable height operand := ⟨by omega, inOperand⟩
  refine ((((abreast.token letters keyword first.honest).run paired operand rfl inside).each _ _ 0
    branches ?_).newline).token letters closing last.honest
  intro place branch member x y here
  have small : heightBranches branches < height := by omega
  obtain ⟨honest, drawable⟩ := branch_of branches small inBranches branch member
  exact (here.newline.token letters branch.keyword honest).run paired branch.elements rfl drawable

theorem abreast_run (letters : SameLetters left right)
    (paired : Paired height leftPainter rightPainter) (haltsLeft : 0 < height → leftPainter.Halts)
    (haltsRight : 0 < height → rightPainter.Halts) (first second : RunMode)
    (types : first.typeAfterAs = second.typeAfterAs) (indent column : Nat) (afterAs : Bool)
    (elements : List Element) (drawable : Drawable (height + 1) elements)
    (abreast : Abreast origin v w) :
    Abreast origin (left.runFrom leftPainter first indent afterAs elements v)
      (right.runFrom rightPainter second column afterAs elements w) := by
  induction elements generalizing afterAs v w with
  | nil => exact abreast
  | cons element rest ih =>
    have onward := drawable.of_subset (List.subset_cons_self element rest)
    have bound := drawable.bound
    have genuine := drawable.genuine
    rw [heightRun] at bound
    rw [traceRun] at genuine
    have shown (mark : Mark) (member : mark ∈ element.trace.marks) : Genuine mark :=
      genuine mark (by simp [member])
    cases element with
    | token token =>
      have honest := (shown (.ofToken token) (by simp [Element.trace])).honest
      rw [runFrom, runFrom]
      refine ih _ onward ?_
      rw [types]
      split
      · exact abreast.typeWord letters token honest
      · exact abreast.word letters _ token honest
    | group inner =>
      rw [runFrom, runFrom]
      rw [Element.height] at bound
      rw [Element.trace] at shown
      exact ih _ onward (abreast_group letters paired haltsLeft haltsRight abreast indent column _ _
        inner (by omega) shown)
    | case inner =>
      rw [runFrom, runFrom]
      exact ih _ onward (abreast_case letters paired abreast inner (by omega) shown)

theorem runFrom_comma (sheet : Sheet) (painter : Painter) (mode : RunMode) (indent : Nat)
    (afterAs : Bool) (before after : List Element) (comma : Token) (kind : comma.kind = .comma)
    (w : Writer) :
    sheet.runFrom painter mode indent afterAs (before ++ .token comma :: after) w =
      sheet.runFrom painter mode indent false after
        (sheet.word indent (startsCall after) comma
          (sheet.runFrom painter mode indent afterAs before w)) := by
  have noWord : comma.kind.isWordLike = false := by rw [kind]; rfl
  have noAs : comma.isKeyword ["AS"] = false := by
    simp [Token.isKeyword, Token.isReserved, kind]
  induction before generalizing afterAs w with
  | nil =>
    rw [List.nil_append, runFrom, runFrom, noAs]
    simp only [noWord, Bool.and_false, Bool.false_eq_true, if_false]
  | cons element rest ih =>
    cases element with
    | token token =>
      have calls : startsCall (rest ++ .token comma :: after) = startsCall rest := by
        cases rest with
        | nil => rfl
        | cons next others => cases next <;> rfl
      rw [List.cons_append, runFrom, runFrom, ih, calls]
    | group inner => rw [List.cons_append, runFrom, runFrom, ih]
    | case inner => rw [List.cons_append, runFrom, runFrom, ih]

theorem halts_run (sheet : Sheet) (painter : Painter)
    (statement : Nat → Statement → Writer → Writer) :
    Painter.Halts ⟨sheet.run painter, statement⟩ := by
  intro mode indent before after comma w kind
  refine ⟨_, ?_, runFrom_comma sheet painter mode indent false before after comma kind w⟩
  rw [face_word]
  have text : sheet.cased comma
      (sheet.runFrom painter mode indent false before w).last (startsCall after) = comma.text := by
    rw [cased, if_neg (by simp [kind, Token.Kind.isWordLike])]
  rw [text]
  rfl

end Sheet

end SqlLayout.Layout
