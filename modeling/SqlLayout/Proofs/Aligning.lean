import SqlLayout.Proofs.Advancing
import SqlLayout.Proofs.Laying

/-! CASE expressions on lines of their own. The writer reads back the column that it has come to
behind the keyword, which is where the keyword ends in the text, so that the branches and END can
be set below the keyword whatever stands before it. -/
namespace SqlLayout.Layout

open SqlLayout.Tree

def onLine (column : Nat) (text : List Char) : List Char :=
  '\n' :: List.replicate column ' ' ++ text

/-- The parts of the text of a CASE expression: what separates its keyword from the text before,
the keyword, what follows up to the first branch, the keyword of each branch and what follows it,
and END. -/
structure CaseText where
  lead : List Char
  keyword : List Char
  operand : List Char
  branches : List (List Char × List Char)
  closing : List Char

namespace CaseText

def column (text : CaseText) (before : List Char) : Nat :=
  (lastLine (before ++ text.lead)).length

/-- The branches begin lines of their own two columns in, and END one right below the keyword. -/
def chars (text : CaseText) (before : List Char) : List Char :=
  text.lead ++ text.keyword ++ text.operand ++
    (text.branches.flatMap fun branch =>
      onLine (text.column before + 2) branch.1 ++ branch.2) ++
    onLine (text.column before) text.closing

end CaseText

namespace Sheet

structure Writing (sheet : Sheet) (token : Token) (chars : List Char) : Prop where
  cased : ∃ last, chars = (sheet.cased token last false).toList
  filled : chars ≠ []
  visible : ∀ c ∈ chars, Text.isBlank c = false

structure IsCaseText (sheet : Sheet) (case : Case Element) (before after : List Char)
    (text : CaseText) : Prop where
  whole : after = before ++ text.chars before
  lead : ∀ c ∈ text.lead, c = ' ' ∨ c = '\n'
  keyword : sheet.Writing case.keyword text.keyword
  branches : List.Forall₂ (fun branch part => sheet.Writing branch.keyword part.1) case.branches
    text.branches
  closing : sheet.Writing case.closing text.closing

def Aligns (sheet : Sheet) (painter : Painter) (case : Case Element) (w : Writer) : Prop :=
  ∃ text, sheet.IsCaseText case w.chars (sheet.caseExpression painter case w).chars text

/-- A token that is written in full and without blanks, whatever stands before it. -/
structure Legible (sheet : Sheet) (token : Token) : Prop where
  solid : token.isComment = false
  filled : ∀ last, sheet.cased token last false ≠ ""
  visible : ∀ last, ∀ c ∈ (sheet.cased token last false).toList, Text.isBlank c = false

structure Spelt (sheet : Sheet) (case : Case Element) : Prop where
  keyword : sheet.Legible case.keyword
  length : ∀ last, (sheet.cased case.keyword last false).length = case.keyword.text.length
  branches : ∀ branch ∈ case.branches, sheet.Legible branch.keyword
  closing : sheet.Legible case.closing

variable {sheet : Sheet} {token : Token} {w v : Writer}

theorem Legible.writing (legible : sheet.Legible token) (last : Option Token) :
    sheet.Writing token (sheet.cased token last false).toList where
  cased := ⟨last, rfl⟩
  filled := fun empty => legible.filled last (String.toList_eq_nil_iff.1 empty)
  visible := legible.visible last

theorem Legible.whole (legible : sheet.Legible token) (last : Option Token) :
    '\n' ∉ (sheet.cased token last false).toList := by
  intro member
  have blank := legible.visible last '\n' member
  exact absurd blank (by decide)

theorem token_eq_solid (solid : token.isComment = false) (indent : Nat) (w : Writer) :
    sheet.token indent token w = sheet.solid (sheet.cased token w.last false) token w := by
  rw [Sheet.token, word, solid]
  rfl

end Sheet

namespace Writer

variable {w v : Writer}

theorem Sound.column_write (sound : w.Sound) (text : String) (filled : text ≠ "")
    (whole : '\n' ∉ text.toList) :
    (w.write text).column = (lastLine (w.chars ++ w.gap)).length + text.length := by
  have content : (w.write text).lineHasContent = true := by
    rw [Writer.write, if_neg filled]
    rfl
  rw [((sound.write text).filled content).1, chars_write_gap text w filled,
    lastLine_append _ _ whole, List.length_append, String.length_toList]

theorem Sound.chars_line (sound : w.Sound) (lines : w.inline = false) (written : w.pieces ≠ [])
    (indent : Nat) (text : String) (filled : text ≠ "") :
    ((w.newline indent).write text).chars = w.chars ++ onLine indent text.toList := by
  have pending : (w.newline indent).pendingBreak = true := by
    rw [Writer.newline, if_neg (by simp [lines])]
    cases content : w.lineHasContent with
    | true => simp
    | false => simp [(sound.empty content).2.resolve_left written]
  have spaces : (w.newline indent).pendingSpaces = indent := by
    rw [Writer.newline, if_neg (by simp [lines])]
  have settled : (w.newline indent).settle = w.newline indent := by
    have unasked : (w.newline indent).breakIndent = none := by
      rw [Writer.newline, if_neg (by simp [lines])]
    rw [Writer.settle, unasked]
  rw [chars_write text _ filled, settled, pending, spaces,
    chars_eq_of_pieces (pieces_newline indent w)]
  rfl

theorem space_newline (lines : w.inline = false) (indent : Nat) :
    (w.newline indent).space = w.newline indent := by
  rw [newline, if_neg (by simp [lines])]
  rfl

end Writer

namespace Sheet

variable {sheet : Sheet} {token : Token} {w v : Writer}

theorem leads_solid (text : String) (token : Token) (w : Writer) :
    w.Leads (sheet.solid text token w) := by
  unfold solid
  simp only
  split
  · exact ((Writer.Leads.refl.step (.spaces 1 w)).step (.write text _)).step (.remember _ _ _)
  · exact (Writer.Leads.refl.step (.write text _)).step (.remember _ _ _)

theorem leads_comment (indent : Nat) (token : Token) (w : Writer) :
    w.Leads (sheet.comment indent token w) := by
  have written : w.Leads (((if sheet.lineStarts.contains token.start then w.newline indent
      else w.space).write token.text).mark token false) := by
    split
    · exact ((Writer.Leads.refl.step (.newline indent w)).step (.write _ _)).step (.remember _ _ _)
    · exact ((Writer.Leads.refl.step (.spaces 1 w)).step (.write _ _)).step (.remember _ _ _)
  unfold comment
  simp only
  split
  · exact written.step (.endLine indent _)
  · exact written

theorem leads_word (indent : Nat) (beforeCall : Bool) (token : Token) (w : Writer) :
    w.Leads (sheet.word indent beforeCall token w) := by
  unfold word
  split
  · exact leads_comment indent token w
  · exact leads_solid _ token w

theorem leads_token (indent : Nat) (token : Token) (w : Writer) :
    w.Leads (sheet.token indent token w) :=
  leads_word indent false token w

theorem Legible.chars_token (legible : sheet.Legible token) (sound : w.Sound) (indent : Nat) :
    ∃ lead : List Char, (∀ c ∈ lead, c = ' ' ∨ c = '\n') ∧
      (sheet.token indent token w).chars =
        w.chars ++ lead ++ (sheet.cased token w.last false).toList ∧
      (sheet.token indent token w).column =
        (lastLine (w.chars ++ lead)).length + (sheet.cased token w.last false).length := by
  have spaced (v : Writer) (soundThere : v.Sound) (same : v.chars = w.chars) :
      (v.write (sheet.cased token w.last false)).chars =
          w.chars ++ v.gap ++ (sheet.cased token w.last false).toList ∧
        (v.write (sheet.cased token w.last false)).column =
          (lastLine (w.chars ++ v.gap)).length + (sheet.cased token w.last false).length := by
    rw [v.chars_write_gap _ (legible.filled w.last),
      soundThere.column_write _ (legible.filled w.last) (legible.whole w.last), same]
    exact ⟨rfl, rfl⟩
  rw [token_eq_solid legible.solid, Sheet.solid]
  split
  · exact ⟨_, w.space.mem_gap, spaced w.space (sound.spaces 1)
      (Writer.chars_eq_of_pieces (Writer.pieces_spaces 1 w))⟩
  · exact ⟨_, w.mem_gap, spaced w sound rfl⟩

theorem Legible.chars_line (legible : sheet.Legible token) (sound : w.Sound)
    (lines : w.inline = false) (written : w.pieces ≠ []) (indent line : Nat) :
    ∃ text, sheet.Writing token text ∧
      (sheet.token indent token (w.newline line)).chars = w.chars ++ onLine line text := by
  have here := sound.chars_line lines written line _ (legible.filled w.last)
  refine ⟨_, legible.writing w.last, ?_⟩
  rw [token_eq_solid legible.solid, Sheet.solid, Writer.last_newline]
  simp only [Writer.space_newline lines, ite_self]
  exact here

section Painting

variable {painter : Painter}

theorem chars_branches
    (leads : ∀ mode indent elements, ∀ v : Writer, v.Reached →
      v.Leads (painter.run mode indent elements v))
    (column : Nat) (indent : Branch Element → Nat) (branches : List (Branch Element)) (index : Nat)
    (reached : w.Reached) (lines : w.inline = false) (written : w.pieces ≠ [])
    (legible : ∀ branch ∈ branches, sheet.Legible branch.keyword) :
    ∃ parts : List (List Char × List Char),
      List.Forall₂ (fun branch part => sheet.Writing branch.keyword part.1) branches parts ∧
      (Writer.each (fun _ branch v => painter.run {} (indent branch) branch.elements
          (sheet.token column branch.keyword (v.newline column))) index branches w).chars =
        w.chars ++ parts.flatMap (fun part => onLine column part.1 ++ part.2) ∧
      w.Leads (Writer.each (fun _ branch v => painter.run {} (indent branch) branch.elements
        (sheet.token column branch.keyword (v.newline column))) index branches w) := by
  induction branches generalizing w index with
  | nil => exact ⟨[], .nil, by simp, .refl⟩
  | cons branch rest ih =>
    rw [List.forall_mem_cons] at legible
    have line : w.Leads (sheet.token column branch.keyword (w.newline column)) :=
      (Writer.Leads.refl.step (.newline column w)).trans (leads_token column branch.keyword _)
    obtain ⟨word, writing, chars⟩ :=
      legible.1.chars_line reached.sound lines written column column
    have body := leads {} (indent branch) branch.elements _ (line.reached reached)
    obtain ⟨content, goesOn⟩ := body.chars
    have here := line.trans body
    obtain ⟨parts, each, others, onward⟩ := ih (index + 1) (here.reached reached)
      (here.inline.trans lines) (here.pieces_ne_nil written) legible.2
    refine ⟨(word, content) :: parts, .cons writing each, ?_, here.trans onward⟩
    rw [Writer.each, others, ← goesOn, chars, List.flatMap_cons]
    simp only [List.append_assoc]

/-- However a CASE expression is written by a writer that starts lines, its branches and END
stand below its keyword. -/
theorem Spelt.aligns {case : Case Element} (spelt : sheet.Spelt case)
    (leads : ∀ mode indent elements, ∀ v : Writer, v.Reached →
      v.Leads (painter.run mode indent elements v))
    (reached : w.Reached) (lines : w.inline = false) : sheet.Aligns painter case w := by
  obtain ⟨lead, blank, front, place⟩ := spelt.keyword.chars_token reached.sound w.column
  generalize start : (lastLine (w.chars ++ lead)).length = left at place
  have column : (sheet.token w.column case.keyword w).column - case.keyword.text.length = left := by
    rw [place, spelt.length, Nat.add_sub_cancel]
  have head : w.Leads (sheet.token w.column case.keyword w) := leads_token w.column case.keyword w
  have begun : (sheet.token w.column case.keyword w).pieces ≠ [] := by
    intro nothing
    rw [Writer.chars, nothing] at front
    simp [spelt.keyword.filled w.last] at front
  have operand := leads {} (left + 5) case.operand _ (head.reached reached)
  obtain ⟨content, goesOn⟩ := operand.chars
  have upToBranches := head.trans operand
  obtain ⟨parts, each, others, branches⟩ := chars_branches leads (left + 2)
    (fun branch => left + 3 + branch.keyword.contents.length) case.branches 0
    (upToBranches.reached reached) (upToBranches.inline.trans lines)
    (operand.pieces_ne_nil begun) spelt.branches
  have upToEnd := upToBranches.trans branches
  obtain ⟨last, closing, ends⟩ := spelt.closing.chars_line (upToEnd.reached reached).sound
    (upToEnd.inline.trans lines) (branches.pieces_ne_nil (operand.pieces_ne_nil begun)) left left
  refine ⟨⟨lead, (sheet.cased case.keyword w.last false).toList, content, parts, last⟩, ?_, blank,
    spelt.keyword.writing w.last, each, closing⟩
  unfold caseExpression
  simp only [column]
  rw [ends, others, ← goesOn, front, CaseText.chars, CaseText.column]
  simp only [start, List.append_assoc]

end Painting

end Sheet

end SqlLayout.Layout
