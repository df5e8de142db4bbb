import SqlLayout.Proofs.Outlining
import SqlLayout.Proofs.Severing

/-! Statements by themselves. A text is laid out as its statements are when each is a text of
its own. Two things differ there: every token stands elsewhere, and a comment right behind the
semicolon of the statement before begins a line once it begins the text. Such a comment comes
first in the tree, whatever has been made of the statement, and is drawn first, where a new
line and a space are both nothing. -/
namespace SqlLayout

open Layout SqlLayout.Tree

namespace Tree

/-- The tree begins with a token: it is the first comment before the statement, or the first
of a plain run. -/
inductive BeginsWith (token : Token) : Statement → Prop where
  | leading (others : List Token) (form : Form) (trailing : List Token) :
      BeginsWith token ⟨token :: others, form, trailing⟩
  | raw (others : List Element) : BeginsWith token (.ofForm (.raw (.token token :: others)))

theorem BeginsWith.marks {token : Token} {statement : Statement}
    (begins : BeginsWith token statement) (kind : token.kind = .comment) :
    ∃ rest, statement.trace.marks = ⟨token, .comment⟩ :: rest := by
  cases begins with
  | leading others form trailing => exact ⟨_, rfl⟩
  | raw others =>
    rw [trace_ofForm, Form.trace, traceRun, Element.trace]
    exact ⟨_, by rw [← kind]; rfl⟩

/-- The run outside of all parentheses, as far as it goes. -/
def outerRun : List Frame → List Element → List Element
  | [], current => current
  | frame :: frames, _ => outerRun frames frame.before

theorem head_outerRun (frames : List Frame) (current more : List Element) (first : Element)
    (head : (outerRun frames current).head? = some first) :
    (outerRun frames (current ++ more)).head? = some first := by
  cases frames with
  | nil =>
    obtain ⟨rest, rfl⟩ := List.head?_eq_some_iff.1 head
    rfl
  | cons frame frames => exact head

section Beginning

variable {token : Token} (comment : token.isComment = true)

include comment

theorem head_groupCases (depth : Nat) (elements : List Element)
    (head : elements.head? = some (.token token)) :
    (groupCases depth elements).head? = some (.token token) := by
  obtain ⟨rest, rfl⟩ := List.head?_eq_some_iff.1 head
  have plain : token.isKeyword ["CASE"] = false := by
    have kind : token.kind = .comment := by simpa [Token.isComment] using comment
    simp [Token.isKeyword, Token.isReserved, kind]
  rw [groupCases, plain]
  rfl

theorem head_groupTokens (vocabulary : Vocabulary) (tokens : List Token) (frames : List Frame)
    (current : List Element) (head : (outerRun frames current).head? = some (.token token)) :
    (groupTokens vocabulary frames current tokens).Yields fun elements =>
      elements.head? = some (.token token) := by
  induction tokens generalizing frames current with
  | nil =>
    cases frames with
    | nil =>
      rw [groupTokens]
      exact (Build.Yields.any _).bind fun _ _ => .pure _ (head_groupCases comment 0 current head)
    | cons frame frames =>
      rw [groupTokens]
      exact .throw _
  | cons next rest ih =>
    unfold groupTokens
    split
    · exact (Build.Yields.any _).bind fun _ _ => ih (⟨next, current⟩ :: frames) [] head
    split
    · cases frames with
      | nil => exact .throw _
      | cons frame frames =>
        exact (Build.Yields.any _).bind fun _ _ => (Build.Yields.any _).bind fun group _ =>
          ih _ _ (head_outerRun frames frame.before _ _ head)
    · exact ih _ _ (head_outerRun frames current _ _ head)

theorem beginsWith_statementOf (elements : List Element)
    (head : elements.head? = some (.token token)) :
    (statementOf elements).Yields (BeginsWith token) := by
  obtain ⟨rest, rfl⟩ := List.head?_eq_some_iff.1 head
  have front : tokensOf ((.token token :: rest).takeWhile Element.isComment) =
      token :: tokensOf (rest.takeWhile Element.isComment) := by
    have isComment : (Element.token token).isComment = true := comment
    rw [List.takeWhile_cons_of_pos isComment]
    rfl
  rw [statementOf, statementFuel, statementWith]
  simp only [front]
  exact (Build.Yields.any _).bind fun form _ => .pure _ (.leading _ form _)

theorem beginsWith_walk (vocabulary : Vocabulary) (statement others : List Token)
    (counted : countedTokens statement = token :: others) :
    BeginsWith token (walk vocabulary statement).statement := by
  have built : (build vocabulary (token :: others)).Yields (BeginsWith token) := by
    have kind : token.kind = .comment := by simpa [Token.isComment] using comment
    have head : (groupTokens vocabulary [] [] (token :: others)).Yields
        fun elements => elements.head? = some (.token token) := by
      rw [groupTokens, if_neg (by simp [kind]), if_neg (by simp [kind])]
      exact head_groupTokens comment vocabulary others [] _ rfl
    exact head.bind fun elements begins => beginsWith_statementOf comment elements begins
  unfold walk
  simp only [counted]
  split
  · rename_i statement progress outcome
    exact built _ _ _ outcome
  · exact .raw _

end Beginning

theorem Displaced.perm {α : Type} {moves passes : α → Prop} {first second : List α}
    (displaced : Displaced moves passes first second) : second.Perm first := by
  induction displaced with
  | nil => exact .refl _
  | cons entry _ ih => exact ih.cons entry
  | swap moved passed rest => exact .swap moved passed rest
  | trans _ _ before after => exact after.trans before

theorem Carries.once {tokens : List Token} {shown : Trace} {token : Token} {rest : List Mark}
    (carries : Carries (.ofTokens tokens) shown) (distinct : tokens.Nodup)
    (first : shown.marks = ⟨token, .comment⟩ :: rest) : ⟨token, .comment⟩ ∉ rest := by
  intro again
  obtain ⟨kept, sub, displaced⟩ := carries.order
  have face : Mark.face ⟨token, .comment⟩ = ⟨token, .comment⟩ :=
    Mark.face_of_ne_comma _ (by simp)
  have twice : 2 ≤ shown.faces.count ⟨token, .comment⟩ := by
    have later : ⟨token, .comment⟩ ∈ rest.map Mark.face := List.mem_map.2 ⟨_, again, face⟩
    rw [Trace.faces, first, List.map_cons, face, List.count_cons_self]
    have positive := List.count_pos_iff.2 later
    omega
  have bound := sub.count_le ⟨token, .comment⟩
  rw [displaced.perm.count_eq] at twice
  have once : (Trace.ofTokens tokens).faces.count ⟨token, .comment⟩ ≤ tokens.count token := by
    rw [Trace.faces, Trace.marks_ofTokens, List.map_map, List.count_eq_countP, List.countP_map,
      List.count_eq_countP]
    refine List.countP_mono_left fun other _ same => ?_
    have shown : Mark.face (.ofToken other) = ⟨token, .comment⟩ := by simpa using same
    by_cases isComma : other.kind = .comma
    · rw [Mark.face_of_comma _ isComma] at shown
      cases congrArg Mark.kind shown
    · rw [Mark.face_of_ne_comma _ isComma] at shown
      exact beq_iff_eq.2 (congrArg Mark.token shown)
  have single := List.nodup_iff_count_le_one.1 distinct token
  omega

end Tree

namespace Layout

variable {copy : Recasting} {token : Token}

theorem Writer.chars_fresh (text : String) : (Writer.write text {}).chars = text.toList := by
  by_cases empty : text = ""
  · subst empty
    rfl
  · rw [Writer.chars_write text {} empty]
    rfl

/-- At the start of a text a new line and a space are both nothing. -/
theorem Recasting.beside_fresh_comment (kind : token.kind = .comment) (rest : List Mark)
    (level : ∀ mark ∈ rest, copy.Level mark) :
    copy.Beside (⟨token, .comment⟩ :: rest) rest (copy.sheet.comment 0 token {})
      (copy.other.comment 0 (copy.change token) {}) := by
  have plain : token.kind.isWordLike = false := by
    rw [kind]
    rfl
  have fresh (sheet : Sheet) (token : Token) :
      sheet.comment 0 token {} =
        let w := Writer.mark token false (Writer.write token.text {})
        if token.isLineComment then w.endLineAfterComment 0 else w := by
    have nothing : (if sheet.lineStarts.contains token.start then Writer.newline 0 {}
        else Writer.space {}) = {} := by
      split <;> rfl
    rw [Sheet.comment, nothing]
  have same := copy.twins token
  have written : copy.Beside (⟨token, .comment⟩ :: rest) rest
      (Writer.mark token false (Writer.write token.text {}))
      (Writer.mark (copy.change token) false (Writer.write token.text {})) := by
    refine ⟨rfl, .some same, ⟨[⟨token, .comment⟩], .refl _, ?_⟩, level⟩
    have chars (token : Token) (w : Writer) : (w.mark token false).chars = w.chars := rfl
    rw [chars, chars, Writer.chars_fresh]
    exact .mark _ _ _ (Recasting.writes_plain plain)
  rw [fresh, fresh, same.isLineComment, same.text plain]
  exact written.quiet ((Writer.quiet_endLine 0).ite _)

theorem statement_raw_comment (token : Token) (kind : token.kind = .comment) (sheet : Sheet)
    (height : Nat) (others : List Element) :
    (sheet.painter (height + 1 + 1)).statement 0 (.ofForm (.raw (.token token :: others))) {} =
      sheet.runFrom (sheet.painter height) {} 0 false others (sheet.comment 0 token {}) := by
  have word : sheet.word 0 (startsCall others) token {} = sheet.comment 0 token {} := by
    rw [Sheet.word, if_pos (by simp [Token.isComment, kind])]
  have plain : token.isKeyword ["AS"] = false := by
    simp [Token.isKeyword, Token.isReserved, kind]
  have step : (sheet.painter (height + 1 + 1)).statement 0
      (.ofForm (.raw (.token token :: others))) {} =
      sheet.runFrom (sheet.painter height) {} 0 (token.isKeyword ["AS"]) others
        (sheet.word 0 (startsCall others) token {}) := rfl
  rw [step, plain, word]

theorem Recasting.beside_beginning (kind : token.kind = .comment) (height : Nat)
    (statement : Statement) (begins : BeginsWith token statement)
    (level : ∀ mark ∈ statement.trace.marks.tail, copy.Level mark) :
    copy.Beside statement.trace.marks []
      ((copy.sheet.painter (height + 1)).statement 0 statement {})
      ((copy.other.painter (height + 1)).statement 0 (statement.recast copy.change) {}) := by
  obtain ⟨marks, shown⟩ := begins.marks kind
  rw [shown, List.tail_cons] at level
  have first := beside_fresh_comment kind marks level
  rw [← shown] at first
  cases begins with
  | leading others form trailing =>
    have onward : marks = others.map (fun token => ⟨token, .comment⟩) ++
        (form.trace.marks ++ (trailing.map (fun token => ⟨token, .comment⟩) ++ [])) := by
      simpa only [Statement.trace, Trace.marks_append, Trace.marks_comments, List.map_cons,
        List.cons_append, List.append_assoc, List.cons.injEq, true_and, List.append_nil]
        using shown.symm
    have rest := first.newline 0
    rw [onward] at rest
    exact beside_comments 0 (fun u => u) Writer.quiet_id 0 trailing
      (beside_form (inStep_painter copy height) 0 form
        (beside_comments 0 (Writer.newline 0) (Writer.quiet_newline 0) 1 others rest))
  | raw others =>
    have onward : (traceRun others).marks ++ [] = marks := by
      simpa only [trace_ofForm, Form.trace, Trace.marks_append, Trace.marks_ofForm,
        List.nil_append, traceRun, Element.trace, Trace.marks_ofToken, List.cons_append,
        List.tail_cons, List.append_nil] using congrArg List.tail shown
    cases height with
    | zero => exact ⟨rfl, .none, ⟨[], List.nil_sublist _, .nil⟩, List.forall_mem_nil _⟩
    | succ height =>
      have recast : Statement.recast copy.change (.ofForm (.raw (.token token :: others))) =
          .ofForm (.raw (.token (copy.change token) :: recastRun copy.change others)) := by
        simp only [Statement.ofForm, Statement.recast, Form.recast, recastRun, Element.recast,
          List.map_nil]
      have twin : (copy.change token).kind = .comment := by rw [(copy.twins token).kind, kind]
      rw [recast, statement_raw_comment token kind, statement_raw_comment (copy.change token) twin]
      rw [← onward] at first
      exact beside_runFrom (inStep_painter copy height) {} 0 false others first

end Layout

namespace Formatter

open Token

theorem countedTokens_cons (token : Token) (rest : List Token) (blank : token.isBlank = false)
    (other : token.kind ≠ .semicolon) :
    countedTokens (token :: rest) = token :: countedTokens rest := by
  rw [countedTokens, countedTokens, List.filter_cons_of_pos (by simp [blank]), List.reverse_cons,
    List.dropWhile_append]
  split
  · rename_i nothing
    rw [List.isEmpty_iff.1 nothing, List.dropWhile_cons_of_neg (by simp [other])]
    rfl
  · rw [List.reverse_append]
    rfl

/-- A statement with a comment in front comes to the same text wherever that one stands. -/
theorem formatStatement_commented (formatter : Formatter) {lines starts : List Nat}
    {change : Token → Token} (renames : Renaming formatter.style change) (token : Token)
    (rest : List Token) (comment : token.isComment = true)
    (ascending : Ascending (token :: rest))
    (begins : ∀ other ∈ rest, other.isComment = true →
      starts.contains (change other).start = lines.contains other.start) :
    formatter.formatStatement starts ((token :: rest).map change) =
      formatter.formatStatement lines (token :: rest) := by
  have kind : token.kind = .comment := by simpa [isComment] using comment
  have counted := countedTokens_cons token rest (by simp [isBlank, kind]) (by simp [kind])
  let sheet : Sheet := ⟨formatter.style, formatter.registry, formatter.width, lines⟩
  have styled : Renaming sheet.style change := renames
  suffices drawn : _ by
    obtain ⟨marks, -, shows⟩ := formatter.shows_formatStatement_of_beside
      (styled.recasting starts) rfl (token :: rest) drawn
    exact String.toList_injective (styled.eq_of_shows shows)
  intro tree walked
  have beginning : BeginsWith token tree := by
    rw [walked]
    exact beginsWith_walk comment _ _ _ counted
  have carries : Carries (.ofTokens (countedTokens (token :: rest))) tree.trace := by
    rw [walked]
    exact carries_walk _ _
  obtain ⟨marks, first⟩ := beginning.marks kind
  have distinct : (countedTokens (token :: rest)).Nodup := by
    refine List.Pairwise.sublist (countedTokens_sublist _) (ascending.imp ?_)
    exact fun less same => Nat.ne_of_lt less (congrArg Token.start same)
  have once := carries.once distinct first
  refine Recasting.beside_beginning kind _ tree beginning ?_
  rw [first, List.tail_cons]
  intro mark member
  rcases carries.members mark (by rw [first]; exact List.mem_cons_of_mem _ member) with
    rfl | inside
  · exact level_comma _
  · obtain ⟨other, counts, rfl⟩ := List.mem_map.1 inside
    refine ⟨rfl, fun isComment => ?_⟩
    rcases List.mem_cons.1 (mem_of_counted other counts) with rfl | later
    · exact absurd (by rwa [Mark.ofToken, kind] at member) once
    · exact begins other later (by simpa [Token.isComment, Mark.ofToken] using isComment)

theorem formatStatement_alone (formatter : Formatter) (tokens statement own : List Token)
    (offset : Nat) (ascending : Ascending tokens) (member : statement ∈ splitStatements tokens)
    (same : statement = own.map (Token.moved (· + offset))) :
    formatter.formatStatement (commentLineStarts none tokens) statement =
      formatter.formatStatement (commentLineStarts none own) own := by
  obtain ⟨front, back, rfl, -, -⟩ := exists_around tokens statement member
  have renames : Renaming formatter.style (Token.moved (· + offset)) :=
    renaming_moved formatter.style fun _ _ less => Nat.add_lt_add_right less offset
  subst same
  have rising : Ascending own := by
    have inside : (own.map (Token.moved (· + offset))).Pairwise
        fun first second => first.start < second.start :=
      (List.pairwise_append.1 (List.pairwise_append.1 ascending).1).2.1
    exact (List.pairwise_map.1 inside).imp Nat.lt_of_add_lt_add_right
  cases own with
  | nil => rfl
  | cons first rest =>
    have begins : ∀ token ∈ rest, token.isComment = true →
        (commentLineStarts none (front ++ (first :: rest).map (Token.moved (· + offset)) ++
          back)).contains (token.moved (· + offset)).start =
        (commentLineStarts none (first :: rest)).contains token.start := by
      intro token inside _
      obtain ⟨mid, after, rfl⟩ := List.append_of_mem inside
      have whole : front ++ (first :: (mid ++ token :: after)).map (Token.moved (· + offset)) ++
          back = (front ++ (first :: mid).map (Token.moved (· + offset))) ++
            token.moved (· + offset) :: (after.map (Token.moved (· + offset)) ++ back) := by
        simp
      rw [whole] at ascending ⊢
      rw [contains_commentLineStarts none _ _ _ ascending, ← List.cons_append,
        contains_commentLineStarts none (first :: mid) after token rising]
      cases final : (first :: mid).getLast? with
      | none => cases List.getLast?_eq_none_iff.1 final
      | some last =>
        rw [List.getLast?_append, List.getLast?_map, final]
        rfl
    by_cases comment : first.isComment = true
    · exact formatter.formatStatement_commented renames first rest comment rising begins
    · refine formatter.formatStatement_recast renames (first :: rest) ?_
      intro token inside isComment
      rcases List.mem_cons.1 inside with rfl | later
      · exact absurd isComment comment
      · exact begins token later isComment

/-- A text is laid out statement by statement: each as a text of its own, and an empty line
between those that are not empty. -/
theorem format_eq_statements (formatter : Formatter) (source : String) (tokens : List Token)
    (lexed : tokens? formatter.registry source = .ok tokens) :
    ∃ texts, ((Stream.mk tokens).statements.map Stream.text).mapM formatter.format = .ok texts ∧
      formatter.format source = .ok ("\n\n".intercalate (texts.filter (· ≠ ""))) := by
  have ascending := ascending_of_tiles (tiles_of_tokens? formatter.registry source tokens lexed)
  let lines := commentLineStarts none tokens
  have alone (statement : List Token) (member : statement ∈ splitStatements tokens) :
      formatter.format (Stream.text ⟨statement⟩) =
        .ok (formatter.formatStatement lines statement) := by
    obtain ⟨own, offset, read, same⟩ :=
      tokens?_statement formatter.registry source tokens statement lexed member
    have single : splitStatements own = [own] := by
      have itself := splitStatements_statement tokens statement member
      have kinds (token : Token) : (token.moved (· + offset)).kind = token.kind := rfl
      rw [same, splitStatements_map kinds] at itself
      obtain ⟨part, split, -⟩ := List.map_eq_singleton_iff.1 itself
      have whole := flatten_splitStatements own
      rw [split, List.flatten_singleton] at whole
      rw [split, whole]
    have text := formatter.formatStatement_alone tokens statement own offset ascending member same
    rw [format, read, Except.map, formatTokens, single, List.map_singleton, ← text]
    by_cases nothing : formatter.formatStatement lines statement = ""
    · simp [lines, nothing]
    · simp [lines, nothing]
  have texts : ((splitStatements tokens).map (Stream.text ⟨·⟩)).mapM formatter.format =
      .ok ((splitStatements tokens).map (formatter.formatStatement lines)) := by
    generalize splitStatements tokens = statements at alone
    induction statements with
    | nil => rfl
    | cons statement rest ih =>
      rw [List.map_cons, List.mapM_cons, alone statement (by simp),
        ih fun other member => alone other (List.mem_cons_of_mem _ member)]
      rfl
  refine ⟨(splitStatements tokens).map (formatter.formatStatement lines), ?_, ?_⟩
  · rw [Stream.statements, List.map_map]
    exact texts
  · rw [format, lexed]
    rfl

def commentedSecond : List Token :=
  [⟨.reservedWord, "select", 0, "SELECT"⟩, .plain .blank " " 6, .plain .numberLiteral "1" 7,
    .plain .semicolon ";" 8, .plain .comment "-- two" 9, .plain .blank "\n" 15,
    ⟨.reservedWord, "select", 16, "SELECT"⟩, .plain .numberLiteral "-2" 22,
    .plain .semicolon ";" 24, .plain .blank "\n" 25]

theorem format_eq_statements_commented :
    (Stream.mk commentedSecond).statements.map Stream.text =
        ["select 1;", "-- two\nselect-2;", "\n"] ∧
      ∃ texts, ["select 1;", "-- two\nselect-2;", "\n"].mapM standard.format = .ok texts ∧
        standard.format "select 1;-- two\nselect-2;\n" =
          .ok ("\n\n".intercalate (texts.filter (· ≠ ""))) := by
  have lexed := (tokens?_eq_ok_iff (Keyword.Registry.common {})
    "select 1;-- two\nselect-2;\n" commentedSecond).2 (by decide +kernel)
  have parts : (Stream.mk commentedSecond).statements.map Stream.text =
      ["select 1;", "-- two\nselect-2;", "\n"] := by decide
  have whole := standard.format_eq_statements _ commentedSecond lexed
  rw [parts] at whole
  exact ⟨parts, whole⟩

end Formatter

end SqlLayout
