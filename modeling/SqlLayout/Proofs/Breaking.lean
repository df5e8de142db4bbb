import SqlLayout.Proofs.Completeness
import SqlLayout.Proofs.Printing

/-! A line comment never swallows what follows it. In the text of a statement every line comment
that the tree shows is written, and a line break follows at once, or the text ends. A subquery
that is put on one line has no line comment to begin with. -/
namespace SqlLayout

open Keyword Layout SqlLayout.Tree

namespace Layout

/-- Behind a line comment the text ends, or a new line starts. -/
theorem ahead_of_apart (front back : List Entry) (entry : Entry)
    (apart : (front ++ entry :: back).IsChain Entry.Apart) (ends : entry.endsLine = true) :
    back.flatMap Entry.chars = [] ∨ (back.flatMap Entry.chars).head? = some '\n' := by
  cases back with
  | nil => exact .inl rfl
  | cons next rest =>
    have breaks := (List.isChain_cons_cons.1 (List.isChain_append.1 apart).2.1).1 ends
    right
    simp [Entry.chars, Piece.chars, Piece.separator, breaks]

theorem Writes.eq_text {mark : Mark} {text : String} (writes : Writes mark text)
    (isComment : mark.token.isComment = true) : text = mark.token.text := by
  have kind : mark.token.kind = .comment := by simpa [Token.isComment] using isComment
  rcases writes with spelling | ⟨isComma, -⟩
  · rwa [Spelling, if_neg (by rw [kind]; decide)] at spelling
  · simp [kind] at isComma

end Layout

namespace Formatter

theorem Reads.endsLine_shown {formatter : Formatter} {source : String}
    {tokens statement : List Token} (reads : Reads formatter source tokens statement)
    (mark : Mark) (drawn : mark ∈ (formatter.tree statement).trace.marks) :
    mark.endsLine = mark.token.isLineComment :=
  (reads.fits_shown mark drawn).endsLine

theorem isLineComment_terminator {terminator : Option Token}
    (ends : ∀ token, terminator = some token → token.kind = .semicolon) (mark : Mark)
    (last : mark ∈ terminator.toList.map .ofToken) : mark.token.isLineComment = false := by
  obtain ⟨token, found, rfl⟩ := List.mem_map.1 last
  have kind := ends token (Option.mem_toList.1 found)
  simp [Mark.ofToken, Token.isLineComment, Token.isComment, kind]

/-- In every style and width, the text of a statement is made of pieces that show what its tree
shows, the line comments all of it, and behind each line comment the text ends or breaks its line
at once. Where a subquery is put on one line, in whatever depth, there is no line break and no
line comment of the tree in it, and it is not too long. -/
theorem line_comments_end_lines (formatter : Formatter)
    (phrases : formatter.registry.compounds = commonPhrases) (source : String)
    (tokens : List Token) (lexed : Token.tokens? formatter.registry source = .ok tokens)
    (statement : List Token) (member : statement ∈ Token.splitStatements tokens)
    (lineStarts : List Nat) (terminator : Option Token)
    (ends : ∀ token, terminator = some token → token.kind = .semicolon) :
    let sheet : Sheet := ⟨formatter.style, formatter.registry, formatter.width, lineStarts⟩
    let tree := formatter.tree statement
    (∃ entries : List Entry,
      (sheet.render tree terminator).toList = entries.flatMap Entry.chars ∧
      (∀ entry ∈ entries, entry.Genuine sheet tree.collect) ∧
      (origins entries).Sublist (tree.trace.marks ++ terminator.toList.map .ofToken) ∧
      (origins entries).filter (·.token.isLineComment) =
        tree.trace.marks.filter (·.token.isLineComment) ∧
      ∀ front entry back mark, entries = front ++ entry :: back → entry.origin = some mark →
        mark.token.isLineComment = true →
        entry.piece.text = mark.token.text ∧
          (back.flatMap Entry.chars = [] ∨ (back.flatMap Entry.chars).head? = some '\n')) ∧
    ∀ (height : Nat) (body : Statement) (text : String), body.height < height →
      sheet.onOneLine? (sheet.painter height) body = some text →
      '\n' ∉ text.toList ∧ text.length ≤ formatter.width ∧
        ∀ mark ∈ body.trace.marks, mark ∈ tree.trace.marks ∨ mark.kind = .comment →
          mark.token.isLineComment = false := by
  intro sheet tree
  have reads := (ReadsText.mk phrases lexed).part member
  have same : ∀ mark ∈ tree.trace.marks ++ terminator.toList.map .ofToken,
      mark.endsLine = mark.token.isLineComment := by
    intro mark inside
    rcases List.mem_append.1 inside with shown | last
    · exact reads.endsLine_shown mark shown
    · rw [Tree.Mark.endsLine, isLineComment_terminator ends mark last, Bool.and_false]
  have quiet : (terminator.toList.map Mark.ofToken).filter (·.token.isLineComment) = [] :=
    List.filter_eq_nil_iff.2 fun mark last => by simp [isLineComment_terminator ends mark last]
  refine ⟨?_, ?_⟩
  · obtain ⟨entries, text, genuine, -, apart, records⟩ :=
      sheet.printed_render tree terminator ends
    have lines : (origins entries).filter (·.token.isLineComment) =
        (origins entries).filter Mark.endsLine :=
      List.filter_congr fun mark inside => (same mark (records.order.mem inside)).symm
    refine ⟨entries, text, genuine, records.order, ?_, ?_⟩
    · rw [lines, records.lines, List.filter_congr same, List.filter_append, quiet,
        List.append_nil]
    · intro front entry back mark whole origin isLine
      have inside : entry ∈ entries := by simp [whole]
      have shown : mark ∈ origins entries := List.mem_filterMap.2 ⟨entry, inside, origin⟩
      have isComment : mark.token.isComment = true := by
        rw [Token.isLineComment, Bool.and_eq_true] at isLine
        exact isLine.1
      have endsLine : entry.endsLine = true := by
        rw [Entry.endsLine, origin, Option.any_some, same mark (records.order.mem shown)]
        exact isLine
      exact ⟨((genuine entry inside).mark mark origin).eq_text isComment,
        ahead_of_apart front back entry (whole ▸ apart) endsLine⟩
  · intro height body text low found
    obtain ⟨flat, short, calm⟩ := sheet.flat_of_onOneLine? height body text low found
    refine ⟨flat, short, ?_⟩
    rintro mark inside (shown | isPlace)
    · rw [← same mark (List.mem_append_left _ shown)]
      exact calm mark inside
    · simpa [Mark.endsLine, isPlace] using calm mark inside

def commentedQuery : List Token :=
  [⟨.reservedWord, "select", 0, "SELECT"⟩, .plain .blank " " 6, .plain .parenOpen "(" 7,
    ⟨.reservedWord, "select", 8, "SELECT"⟩, .plain .blank " " 14, .plain .numberLiteral "1" 15,
    .plain .blank " " 16, .plain .comment "-- x" 17, .plain .blank "\n" 21,
    .plain .parenClose ")" 22, .plain .blank " " 23, .plain .comment "-- y" 24,
    .plain .blank "\n" 28, .plain .semicolon ";" 29]

theorem line_comments_end_lines_query :
    ∃ entries : List Entry,
      "SELECT (SELECT 1 -- x\n        ) -- y\n;".toList = entries.flatMap Entry.chars ∧
      (origins entries).filter (·.token.isLineComment) =
        [.ofToken (.plain .comment "-- x" 17), .ofToken (.plain .comment "-- y" 24)] ∧
      ∀ front entry back mark, entries = front ++ entry :: back → entry.origin = some mark →
        mark.token.isLineComment = true →
        entry.piece.text = mark.token.text ∧
          (back.flatMap Entry.chars = [] ∨ (back.flatMap Entry.chars).head? = some '\n') := by
  have lexed := (Token.tokens?_eq_ok_iff (Registry.common {})
    "select (select 1 -- x\n) -- y\n;" commentedQuery).2 (by decide +kernel)
  obtain ⟨⟨entries, text, -, -, lines, ends⟩, -⟩ := line_comments_end_lines standard rfl _
    commentedQuery lexed commentedQuery (by decide) [] (some (.plain .semicolon ";" 29))
    (fun token same => by rw [← Option.some.inj same]; rfl)
  have shown : (Sheet.mk standard.style standard.registry standard.width []).render
      (standard.tree commentedQuery) (some (.plain .semicolon ";" 29)) =
      "SELECT (SELECT 1 -- x\n        ) -- y\n;" := by decide +kernel
  have marks : (standard.tree commentedQuery).trace.marks.filter (·.token.isLineComment) =
      [.ofToken (.plain .comment "-- x" 17), .ofToken (.plain .comment "-- y" 24)] := by
    decide +kernel
  rw [shown] at text
  rw [marks] at lines
  exact ⟨entries, text, lines, ends⟩

end Formatter

end SqlLayout
