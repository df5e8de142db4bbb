import SqlLayout.Proofs.Advancing

/-! What a writer lays between texts. Whatever is asked of it in whatever order, a text comes
behind some spaces, or behind one line break and then spaces, and the first one begins no new line.
Behind a line that had to end the next text does begin a new one: the break that is remembered may
be asked for again, but nothing takes it back. -/
namespace SqlLayout.Layout

def IsSeparator (chars : List Char) : Prop :=
  ∃ count, chars = List.replicate count ' ' ∨ chars = '\n' :: List.replicate count ' '

theorem Piece.isSeparator (piece : Piece) : IsSeparator piece.separator := by
  refine ⟨piece.spaces, ?_⟩
  unfold Piece.separator
  cases piece.lineBreak with
  | false => exact .inl rfl
  | true => exact .inr rfl

namespace Writer

inductive Call where
  | write (text : String)
  | spaces (count : Nat)
  | padTo (column : Nat)
  | newline (indent : Nat)
  | terminate (text : String)
  | endLine (indent : Nat)
  deriving DecidableEq, Repr

def Call.perform (w : Writer) : Call → Writer
  | .write text => w.write text
  | .spaces count => w.spaces count
  | .padTo column => w.padTo column
  | .newline indent => w.newline indent
  | .terminate text => w.terminate text
  | .endLine indent => w.endLineAfterComment indent

def Call.text? : Call → Option String
  | .write text | .terminate text => if text = "" then none else some text
  | _ => none

def after (calls : List Call) : Writer :=
  calls.foldl Call.perform {}

def texts (calls : List Call) : List String :=
  calls.filterMap Call.text?

theorem after_concat (calls : List Call) (call : Call) :
    after (calls ++ [call]) = call.perform (after calls) :=
  List.foldl_concat ..

theorem texts_concat (calls : List Call) (call : Call) :
    texts (calls ++ [call]) = texts calls ++ call.text?.toList := by
  rw [texts, List.filterMap_append]
  cases written : call.text? <;> simp [written, texts]

theorem texts_concat_eq_nil {calls : List Call} {call : Call} :
    texts (calls ++ [call]) = [] ↔ texts calls = [] ∧ call.text? = none := by
  rw [texts_concat, List.append_eq_nil_iff, Option.toList_eq_nil_iff]

/-- No break stands or waits before the first text. -/
structure Unbroken (w : Writer) : Prop where
  pending : w.pieces = [] → w.pendingBreak = false
  first : ∀ piece, w.pieces.getLast? = some piece → piece.lineBreak = false

def Due (w : Writer) : Prop :=
  w.pendingBreak = true ∨ w.breakIndent.isSome = true

section

variable {w v : Writer} {call : Call} {text : String}

theorem pendingBreak_newline (lines : w.inline = false) (indent : Nat) :
    (w.newline indent).pendingBreak = (w.pendingBreak || w.lineHasContent) := by
  rw [newline, if_neg (by simp [lines])]

theorem leads_perform (call : Call) (w : Writer) : w.Leads (call.perform w) := by
  cases call with
  | write text => exact .step .refl (.write text w)
  | spaces count => exact .step .refl (.spaces count w)
  | padTo column => exact .step .refl (.padTo column w)
  | newline indent => exact .step .refl (.newline indent w)
  | endLine indent => exact .step .refl (.endLine indent w)
  | terminate text =>
    change w.Leads ((if w.breakIndent.isSome then w.newline 0 else w).write text)
    split
    · exact .step (.step .refl (.newline 0 w)) (.write text _)
    · exact .step .refl (.write text w)

theorem leads_after (calls : List Call) : Leads {} (after calls) := by
  induction calls using List.reverseRecOn with
  | nil => exact .refl
  | append_singleton calls call ih =>
    rw [after_concat]
    exact ih.trans (leads_perform call _)

theorem sound_after (calls : List Call) : (after calls).Sound :=
  (Sound.fresh false).leads (leads_after calls)

theorem inline_after (calls : List Call) : (after calls).inline = false :=
  (leads_after calls).inline

namespace Unbroken

theorem of_eq (unbroken : w.Unbroken) (pieces : v.pieces = w.pieces)
    (pending : v.pendingBreak = w.pendingBreak) : v.Unbroken where
  pending := by
    rw [pieces, pending]
    exact unbroken.pending
  first := by
    rw [pieces]
    exact unbroken.first

theorem spaces (unbroken : w.Unbroken) (count : Nat) : (w.spaces count).Unbroken := by
  unfold Writer.spaces
  split
  · exact unbroken.of_eq rfl rfl
  · exact unbroken

theorem padTo (unbroken : w.Unbroken) (column : Nat) : (w.padTo column).Unbroken := by
  unfold Writer.padTo
  split
  · exact unbroken.spaces 1
  · split
    · exact unbroken.of_eq rfl rfl
    · exact unbroken

theorem newline (unbroken : w.Unbroken) (sound : w.Sound) (indent : Nat) :
    (w.newline indent).Unbroken := by
  unfold Writer.newline
  split
  · exact (unbroken.of_eq rfl rfl : Unbroken { w with breakIndent := none }).spaces 1
  · refine ⟨fun nothing => ?_, unbroken.first⟩
    have empty : w.lineHasContent = false :=
      Bool.eq_false_iff.2 fun content => (sound.filled content).2.1 nothing
    simp only [unbroken.pending nothing, empty, Bool.or_self]

theorem put (unbroken : w.Unbroken) (text : String) : (w.put text).Unbroken := by
  refine ⟨fun _ => rfl, fun piece last => ?_⟩
  change (⟨w.pendingBreak, w.pendingSpaces, text⟩ :: w.pieces).getLast? = some piece at last
  cases written : w.pieces with
  | nil =>
    rw [written] at last
    rw [← Option.some.inj last]
    exact unbroken.pending written
  | cons first rest =>
    rw [written, List.getLast?_cons_cons, ← written] at last
    exact unbroken.first piece last

theorem write (unbroken : w.Unbroken) (sound : w.Sound) (text : String) :
    (w.write text).Unbroken := by
  unfold Writer.write settle
  split
  · exact unbroken
  · split
    · exact (unbroken.newline sound _).put text
    · exact unbroken.put text

theorem step (unbroken : w.Unbroken) (sound : w.Sound) (step : w.Step v) : v.Unbroken := by
  cases step with
  | spaces count => exact unbroken.spaces count
  | padTo column => exact unbroken.padTo column
  | newline indent => exact unbroken.newline sound indent
  | write text => exact unbroken.write sound text
  | endLine | remember | parens | breaks => exact unbroken.of_eq rfl rfl

theorem leads (unbroken : w.Unbroken) (sound : w.Sound) (leads : w.Leads v) : v.Unbroken := by
  induction leads with
  | refl => exact unbroken
  | step before step ih => exact ih.step (sound.leads before) step

end Unbroken

theorem unbroken_after (calls : List Call) : (after calls).Unbroken :=
  Unbroken.leads ⟨fun _ => rfl, by simp⟩ (Sound.fresh false) (leads_after calls)

theorem pieces_perform (quiet : call.text? = none) (w : Writer) :
    (call.perform w).pieces = w.pieces := by
  cases call with
  | write text =>
    rw [Call.perform, Writer.write, if_pos (by simpa [Call.text?] using quiet)]
  | spaces count => exact pieces_spaces count w
  | padTo column => exact pieces_padTo column w
  | newline indent => exact pieces_newline indent w
  | endLine indent => rfl
  | terminate text =>
    rw [Call.perform, terminate, Writer.write, if_pos (by simpa [Call.text?] using quiet)]
    split
    · exact pieces_newline 0 w
    · rfl

theorem settle_newline (lines : w.inline = false) (indent : Nat) :
    (w.newline indent).settle = w.newline indent := by
  have unasked : (w.newline indent).breakIndent = none := by
    rw [Writer.newline, if_neg (by simp [lines])]
  rw [settle, unasked]

theorem exists_put (writes : call.text? = some text) (lines : w.inline = false) :
    text ≠ "" ∧ ∃ v : Writer, call.perform w = v.put text ∧ v.pieces = w.pieces ∧
      v.pendingBreak = (w.pendingBreak || (w.breakIndent.isSome && w.lineHasContent)) := by
  have filled (given : String) (same : (if given = "" then none else some given) = some text) :
      given = text ∧ text ≠ "" := by
    split at same
    · cases same
    · rename_i other
      obtain rfl := Option.some.inj same
      exact ⟨rfl, other⟩
  cases call with
  | spaces | padTo | newline | endLine => cases writes
  | write given =>
    obtain ⟨rfl, other⟩ := filled given writes
    refine ⟨other, w.settle, if_neg other, pieces_settle w, ?_⟩
    unfold settle
    split
    · rename_i indent asked
      rw [pendingBreak_newline lines, asked, Option.isSome_some, Bool.true_and]
    · rename_i unasked
      rw [unasked, Option.isSome_none, Bool.false_and, Bool.or_false]
  | terminate given =>
    obtain ⟨rfl, other⟩ := filled given writes
    rw [Call.perform, terminate, Writer.write, if_neg other]
    refine ⟨other, _, rfl, ?_⟩
    cases asked : w.breakIndent with
    | none =>
      rw [if_neg (by simp), settle, asked, Option.isSome_none, Bool.false_and, Bool.or_false]
      exact ⟨rfl, rfl⟩
    | some indent =>
      rw [if_pos Option.isSome_some, settle_newline lines, pendingBreak_newline lines,
        Option.isSome_some, Bool.true_and]
      exact ⟨pieces_newline 0 w, rfl⟩

/-- Behind a text either its line goes on or a break waits. -/
theorem Sound.breaks_or_goesOn (sound : w.Sound) (written : w.pieces ≠ []) :
    (w.pendingBreak || w.lineHasContent) = true := by
  cases content : w.lineHasContent with
  | true => exact Bool.or_true _
  | false => rw [(sound.empty content).2.resolve_left written, Bool.true_or]

/-- Once something has been written, nothing but a text takes the break that waits. -/
theorem Due.perform (due : w.Due) (sound : w.Sound) (lines : w.inline = false)
    (written : w.pieces ≠ []) (quiet : call.text? = none) : (call.perform w).Due := by
  have broken (indent : Nat) : (w.newline indent).Due :=
    .inl ((pendingBreak_newline lines indent).trans (sound.breaks_or_goesOn written))
  cases call with
  | write text =>
    rw [Call.perform, Writer.write, if_pos (by simpa [Call.text?] using quiet)]
    exact due
  | spaces count =>
    change (w.spaces count).Due
    unfold spaces
    split
    · exact due
    · exact due
  | padTo column =>
    change (w.padTo column).Due
    unfold padTo
    rw [if_neg (by simp [lines])]
    split
    · exact due
    · exact due
  | newline indent => exact broken indent
  | endLine indent => exact .inr rfl
  | terminate text =>
    rw [Call.perform, terminate, Writer.write, if_pos (by simpa [Call.text?] using quiet)]
    split
    · exact broken 0
    · exact due

theorem pieces_after_append (calls between : List Call) (quiet : texts between = []) :
    (after (calls ++ between)).pieces = (after calls).pieces := by
  induction between using List.reverseRecOn with
  | nil => rw [List.append_nil]
  | append_singleton between call ih =>
    obtain ⟨before, last⟩ := texts_concat_eq_nil.1 quiet
    rw [← List.append_assoc, after_concat, pieces_perform last, ih before]

theorem due_after_append (calls between : List Call) (written : (after calls).pieces ≠ [])
    (due : (after calls).Due) (quiet : texts between = []) : (after (calls ++ between)).Due := by
  induction between using List.reverseRecOn with
  | nil => rwa [List.append_nil]
  | append_singleton between call ih =>
    obtain ⟨before, last⟩ := texts_concat_eq_nil.1 quiet
    rw [← List.append_assoc, after_concat]
    refine (ih before).perform (sound_after _) (inline_after _) ?_ last
    rwa [pieces_after_append calls between before]

theorem text_pieces_after (calls : List Call) :
    (after calls).pieces.reverse.map Piece.text = texts calls := by
  induction calls using List.reverseRecOn with
  | nil => rfl
  | append_singleton calls call ih =>
    rw [after_concat, texts_concat, ← ih]
    cases written : call.text? with
    | none => rw [pieces_perform written, Option.toList_none, List.append_nil]
    | some text =>
      obtain ⟨-, v, put, same, -⟩ := exists_put written (inline_after calls)
      rw [put, Option.toList_some, Writer.put, List.reverse_cons, List.map_append, same]
      rfl

theorem due_behind_comment (before between : List Call) (indent : Nat) (written : texts before ≠ [])
    (quiet : texts between = []) : (after (before ++ .endLine indent :: between)).Due := by
  rw [← List.singleton_append, ← List.append_assoc]
  refine due_after_append _ between ?_ ?_ quiet
  · rw [pieces_after_append before _ rfl]
    intro nothing
    rw [← text_pieces_after, nothing] at written
    exact written rfl
  · rw [after_concat]
    exact .inr rfl

theorem exists_separator (calls : List Call) (writes : call.text? = some text) :
    ∃ piece : Piece, (after (calls ++ [call])).chars =
        (after calls).chars ++ piece.separator ++ text.toList ∧
      (after (calls ++ [call])).column = (lastLine (after (calls ++ [call])).chars).length ∧
      (texts calls ≠ [] → (after calls).Due → piece.lineBreak = true) := by
  obtain ⟨-, v, put, same, pending⟩ := exists_put writes (inline_after calls)
  refine ⟨⟨v.pendingBreak, v.pendingSpaces, text⟩, ?_, ?_, fun some due => ?_⟩
  · rw [after_concat, put, chars_put, chars_eq_of_pieces same, List.append_assoc]
    rfl
  · refine ((sound_after (calls ++ [call])).filled ?_).1
    rw [after_concat, put]
    rfl
  · have written : (after calls).pieces ≠ [] := by
      intro nothing
      rw [← text_pieces_after, nothing] at some
      exact some rfl
    rw [pending]
    rcases due with waits | asked
    · rw [waits, Bool.true_or]
    · rw [asked, Bool.true_and]
      exact (sound_after calls).breaks_or_goesOn written

end

/-- Whatever a writer that starts lines has been asked for, in any order: its text is the texts
that it was given, each behind some spaces or behind one line break and spaces, the first one with
no line break. So every text adds just itself and such a separator, and leaves the writer at the
column where the last line of the text ends. Where a line had to end behind some text, and no text
was given since, the separator has the break. -/
theorem after_calls_laid (calls : List Call) :
    (∃ parts : List (List Char × String),
      parts.map Prod.snd = texts calls ∧
      (after calls).text.toList = parts.flatMap (fun part => part.1 ++ part.2.toList) ∧
      (∀ part ∈ parts, IsSeparator part.1) ∧
      ∀ part, parts.head? = some part → '\n' ∉ part.1) ∧
    ∀ call text, call.text? = some text →
      (∃ separator, IsSeparator separator ∧
        (after (calls ++ [call])).text.toList =
          (after calls).text.toList ++ separator ++ text.toList) ∧
      (after (calls ++ [call])).column =
        (lastLine (after (calls ++ [call])).text.toList).length ∧
      ∀ before indent between, calls = before ++ .endLine indent :: between →
        texts before ≠ [] → texts between = [] →
        ∃ count, (after (calls ++ [call])).text.toList =
          (after calls).text.toList ++ '\n' :: List.replicate count ' ' ++ text.toList := by
  refine ⟨⟨(after calls).pieces.reverse.map fun piece => (piece.separator, piece.text),
    ?_, ?_, ?_, ?_⟩, fun call text writes => ?_⟩
  · rw [List.map_map, ← text_pieces_after]
    rfl
  · rw [List.flatMap_map, Writer.text, String.toList_ofList]
    rfl
  · rintro part member
    obtain ⟨piece, -, rfl⟩ := List.mem_map.1 member
    exact piece.isSeparator
  · intro part first
    rw [List.head?_map, List.head?_reverse] at first
    obtain ⟨piece, last, rfl⟩ := Option.map_eq_some_iff.1 first
    simp [Piece.separator, (unbroken_after calls).first piece last, List.mem_replicate]
  · obtain ⟨piece, added, column, breaks⟩ := exists_separator calls writes
    simp only [Writer.text, String.toList_ofList]
    refine ⟨⟨piece.separator, piece.isSeparator, added⟩, column, ?_⟩
    rintro before indent between rfl some quiet
    have filled : texts (before ++ .endLine indent :: between) ≠ [] := by
      rw [texts, List.filterMap_append]
      exact List.append_ne_nil_of_left_ne_nil some _
    have due := due_behind_comment before between indent some quiet
    rw [added, Piece.separator, breaks filled due]
    exact ⟨piece.spaces, rfl⟩

def askedBehindComment : List Call :=
  [.spaces 3, .newline 4, .terminate "", .padTo 9]

theorem after_calls_laid_comment :
    let calls : List Call := [.write "a -- x"] ++ .endLine 2 :: askedBehindComment
    texts [.write "a -- x"] ≠ [] ∧ texts askedBehindComment = [] ∧
      (Call.write "b").text? = some "b" ∧
      (after (calls ++ [.write "b"])).column = (lastLine "a -- x\n    b".toList).length ∧
      ∃ count, "a -- x\n    b".toList =
        "a -- x".toList ++ '\n' :: List.replicate count ' ' ++ ['b'] := by
  intro calls
  obtain ⟨-, step⟩ := after_calls_laid calls
  obtain ⟨-, column, breaks⟩ := step (.write "b") "b" rfl
  have shown : (after (calls ++ [.write "b"])).text.toList = "a -- x\n    b".toList := by decide
  rw [shown] at column breaks
  refine ⟨by decide, rfl, rfl, column, ?_⟩
  exact breaks [.write "a -- x"] 2 askedBehindComment rfl (by decide) rfl

end Writer

end SqlLayout.Layout
