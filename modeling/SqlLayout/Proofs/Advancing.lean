import Mathlib.Data.List.DropRight
import SqlLayout.Layout.Sheet

/-! What a writer can come to. A writer is changed in a few ways only: something is asked for,
remembered or written. Whatever it has come to from a fresh one, it knows where it is: its column
is the length of the line so far, or no line has been begun and the next text starts one. What
has been written stays in front of whatever is written next. -/
namespace SqlLayout.Layout

open SqlLayout.Tree

def lastLine (chars : List Char) : List Char :=
  chars.rtakeWhile (· ≠ '\n')

@[simp] theorem lastLine_nil : lastLine [] = [] := rfl

theorem lastLine_of_whole (chars : List Char) (whole : '\n' ∉ chars) : lastLine chars = chars := by
  refine List.rtakeWhile_eq_self_iff.2 fun c member => ?_
  have other : c ≠ '\n' := by
    rintro rfl
    exact whole member
  simpa using other

theorem lastLine_break (front back : List Char) :
    lastLine (front ++ '\n' :: back) = lastLine back := by
  induction back using List.reverseRecOn with
  | nil => exact List.rtakeWhile_concat_neg _ _ _ (by simp)
  | append_singleton back c ih =>
    rw [← List.cons_append, ← List.append_assoc, lastLine, lastLine, List.rtakeWhile_concat,
      List.rtakeWhile_concat]
    split
    · rw [← lastLine, ← lastLine, ih]
    · rfl

theorem lastLine_append (front back : List Char) (whole : '\n' ∉ back) :
    lastLine (front ++ back) = lastLine front ++ back := by
  induction back using List.reverseRecOn with
  | nil => simp
  | append_singleton back c ih =>
    rw [List.mem_append, List.mem_singleton, not_or] at whole
    rw [← List.append_assoc, lastLine, List.rtakeWhile_concat,
      if_pos (by simpa using Ne.symm whole.2), ← lastLine, ih whole.1, List.append_assoc]

theorem lastLine_append_of_mem (front back : List Char) (broken : '\n' ∈ back) :
    lastLine (front ++ back) = lastLine back := by
  obtain ⟨before, after, rfl⟩ := List.append_of_mem broken
  rw [← List.append_assoc, lastLine_break, lastLine_break]

namespace Writer

@[simp] theorem inline_spaces (count : Nat) (w : Writer) : (w.spaces count).inline = w.inline := by
  unfold spaces
  split <;> rfl

@[simp] theorem inline_space (w : Writer) : w.space.inline = w.inline :=
  inline_spaces 1 w

@[simp] theorem inline_newline (indent : Nat) (w : Writer) :
    (w.newline indent).inline = w.inline := by
  unfold newline
  split
  · exact inline_space _
  · rfl

@[simp] theorem inline_padTo (column : Nat) (w : Writer) : (w.padTo column).inline = w.inline := by
  unfold padTo
  split
  · exact inline_space w
  · split <;> rfl

theorem inline_settle (w : Writer) : w.settle.inline = w.inline := by
  unfold settle
  split
  · exact inline_newline _ w
  · rfl

@[simp] theorem inline_write (text : String) (w : Writer) : (w.write text).inline = w.inline := by
  unfold write
  split
  · rfl
  · exact inline_settle w

inductive Step : Writer → Writer → Prop
  | spaces (count : Nat) (w : Writer) : Step w (w.spaces count)
  | padTo (column : Nat) (w : Writer) : Step w (w.padTo column)
  | newline (indent : Nat) (w : Writer) : Step w (w.newline indent)
  | write (text : String) (w : Writer) : Step w (w.write text)
  | endLine (indent : Nat) (w : Writer) : Step w (w.endLineAfterComment indent)
  | remember (last : Option Token) (unary : Bool) (w : Writer) :
      Step w { w with last := last, lastUnary := unary }
  | parens (roles : List Role) (w : Writer) : Step w { w with parens := roles }
  | breaks (broken : Bool) (w : Writer) : Step w { w with broken := broken }

theorem Step.pieces {w v : Writer} (step : w.Step v) : w.pieces <:+ v.pieces := by
  cases step with
  | spaces | padTo | newline => simp
  | write text =>
    unfold Writer.write
    split
    · exact List.suffix_rfl
    · rw [Writer.put, pieces_settle]
      exact List.suffix_cons _ _
  | endLine | remember | parens | breaks => exact List.suffix_rfl

theorem Step.inline {w v : Writer} (step : w.Step v) : v.inline = w.inline := by
  cases step with
  | spaces | padTo | newline | write => simp
  | endLine | remember | parens | breaks => rfl

inductive Leads (w : Writer) : Writer → Prop
  | refl : Leads w w
  | step {v u : Writer} (leads : Leads w v) (step : v.Step u) : Leads w u

def Reached (w : Writer) : Prop :=
  ∃ inline : Bool, Leads { inline } w

structure Sound (w : Writer) : Prop where
  empty : w.lineHasContent = false → w.column = 0 ∧ (w.pieces = [] ∨ w.pendingBreak = true)
  filled : w.lineHasContent = true →
    w.column = (lastLine w.chars).length ∧ w.pieces ≠ [] ∧ w.pendingBreak = false

namespace Sound

variable {w v : Writer}

theorem fresh (inline : Bool) : Sound { inline } :=
  ⟨fun _ => ⟨rfl, .inl rfl⟩, fun content => absurd content (by simp)⟩

theorem of_eq (sound : w.Sound) (content : v.lineHasContent = w.lineHasContent)
    (column : v.column = w.column) (pieces : v.pieces = w.pieces)
    (pending : v.pendingBreak = w.pendingBreak) : v.Sound where
  empty := by
    rw [content, column, pieces, pending]
    exact sound.empty
  filled := by
    rw [content, column, chars_eq_of_pieces pieces, pieces, pending]
    exact sound.filled

theorem spaces (sound : w.Sound) (count : Nat) : (w.spaces count).Sound := by
  unfold Writer.spaces
  split
  · exact sound.of_eq rfl rfl rfl rfl
  · exact sound

theorem padTo (sound : w.Sound) (column : Nat) : (w.padTo column).Sound := by
  unfold Writer.padTo
  split
  · exact sound.spaces 1
  · split
    · exact sound.of_eq rfl rfl rfl rfl
    · exact sound

theorem newline (sound : w.Sound) (indent : Nat) : (w.newline indent).Sound := by
  unfold Writer.newline
  split
  · exact (sound.of_eq rfl rfl rfl rfl : Sound { w with breakIndent := none }).spaces 1
  · refine ⟨fun _ => ?_, fun content => absurd content (by simp)⟩
    cases content : w.lineHasContent with
    | true => simp
    | false => simpa [content] using sound.empty content

theorem settle (sound : w.Sound) : w.settle.Sound := by
  unfold Writer.settle
  split
  · exact sound.newline _
  · exact sound

theorem columnAfter_eq (column : Nat) (text : String) :
    columnAfter column text =
      if '\n' ∈ text.toList then (lastLine text.toList).length
      else column + text.toList.length := by
  simp only [columnAfter, List.contains_iff_mem, lastLine, List.rtakeWhile, List.length_reverse]

theorem column_eq (sound : w.Sound) (unbroken : w.pendingBreak = false) :
    w.column = (lastLine w.chars).length := by
  cases content : w.lineHasContent with
  | true => exact (sound.filled content).1
  | false =>
    obtain ⟨column, nothing | broken⟩ := sound.empty content
    · rw [column, chars, nothing]
      rfl
    · simp [unbroken] at broken

theorem column_next (sound : w.Sound) :
    w.column + w.pendingSpaces =
      (lastLine (w.chars ++ (Piece.mk w.pendingBreak w.pendingSpaces "").separator)).length := by
  have spaces : '\n' ∉ List.replicate w.pendingSpaces ' ' := by simp [List.mem_replicate]
  unfold Piece.separator
  cases broken : w.pendingBreak with
  | true =>
    have empty : w.lineHasContent = false := by
      refine Bool.eq_false_iff.2 fun content => ?_
      have unbroken := (sound.filled content).2.2
      simp [broken] at unbroken
    rw [(sound.empty empty).1]
    simp only [if_true, List.singleton_append]
    rw [lastLine_break, lastLine_of_whole _ spaces, List.length_replicate, Nat.zero_add]
  | false =>
    rw [sound.column_eq broken]
    simp only [Bool.false_eq_true, if_false, List.nil_append]
    rw [lastLine_append _ _ spaces, List.length_append, List.length_replicate]

theorem put (sound : w.Sound) (text : String) : (w.put text).Sound := by
  refine ⟨fun content => absurd content (by simp [Writer.put]), fun _ => ⟨?_, ?_, rfl⟩⟩
  · have whole : (w.put text).chars =
        w.chars ++ (Piece.mk w.pendingBreak w.pendingSpaces "").separator ++ text.toList := by
      rw [chars_put, List.append_assoc]
      rfl
    change columnAfter (w.column + w.pendingSpaces) text = _
    rw [columnAfter_eq, whole]
    split
    · rename_i broken
      rw [lastLine_append_of_mem _ _ broken]
    · rename_i unbroken
      rw [lastLine_append _ _ unbroken, List.length_append, sound.column_next]
  · simp [Writer.put]

theorem write (sound : w.Sound) (text : String) : (w.write text).Sound := by
  unfold Writer.write
  split
  · exact sound
  · exact sound.settle.put text

theorem step (sound : w.Sound) (step : w.Step v) : v.Sound := by
  cases step with
  | spaces count => exact sound.spaces count
  | padTo column => exact sound.padTo column
  | newline indent => exact sound.newline indent
  | write text => exact sound.write text
  | endLine | remember | parens | breaks => exact sound.of_eq rfl rfl rfl rfl

theorem leads (sound : w.Sound) (leads : w.Leads v) : v.Sound := by
  induction leads with
  | refl => exact sound
  | step _ step ih => exact ih.step step

end Sound

/-- A writer knows where it is in every state. -/
theorem Reached.sound {w : Writer} (reached : w.Reached) : w.Sound := by
  obtain ⟨inline, leads⟩ := reached
  exact (Sound.fresh inline).leads leads

namespace Leads

variable {u v w : Writer}

theorem trans (first : w.Leads v) (second : v.Leads u) : w.Leads u := by
  induction second with
  | refl => exact first
  | step _ step ih => exact ih.step step

theorem pieces (leads : w.Leads v) : w.pieces <:+ v.pieces := by
  induction leads with
  | refl => exact List.suffix_rfl
  | step _ step ih => exact ih.trans step.pieces

theorem chars (leads : w.Leads v) : w.chars <+: v.chars := by
  obtain ⟨later, whole⟩ := leads.pieces
  exact ⟨later.reverse.flatMap Piece.chars, by
    rw [Writer.chars, Writer.chars, ← whole, List.reverse_append, List.flatMap_append]⟩

theorem pieces_ne_nil (leads : w.Leads v) (written : w.pieces ≠ []) : v.pieces ≠ [] :=
  fun nothing => written (List.suffix_nil.1 (nothing ▸ leads.pieces))

theorem inline (leads : w.Leads v) : v.inline = w.inline := by
  induction leads with
  | refl => rfl
  | step _ step ih => exact step.inline.trans ih

theorem reached (leads : w.Leads v) (reached : w.Reached) : v.Reached := by
  obtain ⟨inline, before⟩ := reached
  exact ⟨inline, before.trans leads⟩

end Leads

end Writer

end SqlLayout.Layout
