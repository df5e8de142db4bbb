import SqlLayout.Proofs.Outlining
import SqlLayout.Proofs.Standing

/-! Texts that stay as they are. What a formatter makes of a regular source is read as twins
of the tokens of the source, so if the same comments begin a line, the second run is in lockstep
with the first one: it puts the same blanks between the same words. In the row of the first run each token already has the
spelling that it is given once more, so the second run writes the same words, too. -/
namespace SqlLayout

open Keyword Layout SqlLayout.Tree

namespace Token

/-- The cuts between statements stay where they are if statements without anything in them are
left out, within the first statement and from its start. -/
theorem splitStatements_kept (tokens : List Token) :
    (∀ first others, splitStatements tokens = first :: others →
        splitStatements (first ++ (others.filter hasSubstance).flatten) =
          first :: others.filter hasSubstance) ∧
      splitStatements ((splitStatements tokens).filter hasSubstance).flatten =
        (splitStatements tokens).filter hasSubstance := by
  induction tokens with
  | nil => exact ⟨fun first others none => by simp [splitStatements] at none, rfl⟩
  | cons token rest ih =>
    obtain ⟨within, start⟩ := ih
    by_cases ends : token.kind = .semicolon
    · have split : splitStatements (token :: rest) = [token] :: splitStatements rest := by
        rw [splitStatements, if_pos ends]
      have empty : hasSubstance [token] = false := by simp [hasSubstance, ends]
      rw [split]
      refine ⟨fun first others same => ?_, by simpa [empty] using start⟩
      obtain ⟨rfl, rfl⟩ := List.cons.inj same
      rw [List.singleton_append, splitStatements, if_pos ends, start]
    · rw [splitStatements_cons token rest ends]
      have onward : splitStatements (token :: (splitStatements rest).headD [] ++
            ((splitStatements rest).tail.filter hasSubstance).flatten) =
          (token :: (splitStatements rest).headD []) ::
            (splitStatements rest).tail.filter hasSubstance := by
        rw [List.cons_append, splitStatements_cons token _ ends]
        cases split : splitStatements rest with
        | nil => rfl
        | cons first others => rw [List.headD_cons, List.tail_cons, within first others split]; rfl
      refine ⟨fun first others same => ?_, ?_⟩
      · obtain ⟨rfl, rfl⟩ := List.cons.inj same
        exact onward
      · by_cases full : hasSubstance (token :: (splitStatements rest).headD []) = true
        · rw [List.filter_cons_of_pos full, List.flatten_cons, onward]
        · rw [List.filter_cons_of_neg full]
          cases split : splitStatements rest with
          | nil => rfl
          | cons first others =>
            rw [split] at full start
            have empty : ¬hasSubstance first = true := by
              intro some
              refine full ?_
              rw [hasSubstance, List.headD_cons, List.any_cons, Bool.or_eq_true]
              exact .inr some
            rwa [List.filter_cons_of_neg empty] at start

theorem splitStatements_substance (tokens : List Token) :
    splitStatements (substance tokens) =
      ((splitStatements tokens).filter hasSubstance).map visible := by
  rw [substance, splitStatements_visible, (splitStatements_kept tokens).2, List.filter_eq_self]
  intro part member
  obtain ⟨statement, full, rfl⟩ := List.mem_map.1 member
  obtain ⟨token, inside, solid⟩ := List.any_eq_true.1 (List.mem_filter.1 full).2
  have kept : token ∈ visible statement :=
    List.mem_filter.2 ⟨inside, (Bool.and_eq_true_iff.1 solid).1⟩
  simpa using List.ne_nil_of_mem kept

/-- The comments of a text, and which of them begin a line. -/
def comments (tokens : List Token) : List Shape :=
  (outline none tokens).filter (·.kind = .comment)

theorem comments_eq (tokens : List Token) (ascending : SqlLayout.Tree.Ascending tokens) :
    comments tokens =
      ((visible tokens).filter isComment).map (shape (commentLineStarts none tokens)) := by
  rw [comments, outline_eq none tokens ascending, List.filter_map]
  rfl

theorem filter_comment_withoutEmpty (fresh : Bool) (tokens : List Token) :
    (withoutEmpty fresh tokens).filter isComment = tokens.filter isComment := by
  fun_induction withoutEmpty fresh tokens with
  | case1 => rfl
  | case2 fresh token rest skips ih =>
    simp only [Bool.and_eq_true, decide_eq_true_eq] at skips
    rw [ih, List.filter_cons_of_neg (by simp [isComment, skips.2])]
  | case3 fresh token rest _ ih => rw [List.filter_cons, List.filter_cons, ih]

theorem begins_of_comments {tokens relexed : List Token} {change : Token → Token}
    (ascending : SqlLayout.Tree.Ascending tokens) (rising : SqlLayout.Tree.Ascending relexed)
    (kinds : ∀ token, (change token).kind = token.kind)
    (again : visible relexed = (substance tokens).map change)
    (placed : comments relexed = comments tokens) (token : Token) (member : token ∈ tokens)
    (comment : token.isComment = true) :
    (commentLineStarts none relexed).contains (change token).start =
      (commentLineStarts none tokens).contains token.start := by
  have same : isComment ∘ change = isComment := by
    funext other
    simp [isComment, kinds]
  rw [comments_eq _ rising, comments_eq _ ascending, again, List.filter_map, List.map_map, same,
    ← (withoutEmpty_visible tokens).2, filter_comment_withoutEmpty] at placed
  have solid : token.kind ≠ .blank := by
    intro blank
    simp [isComment, blank] at comment
  have kept : token ∈ (visible tokens).filter isComment :=
    List.mem_filter.2 ⟨List.mem_filter.2 ⟨member, by simp [isBlank, solid]⟩, comment⟩
  have here := congrArg Shape.beginsLine (List.map_inj_left.1 placed token kept)
  have commentAgain : (change token).isComment = true := by
    rwa [isComment, kinds, ← isComment]
  simpa [shape, comment, commentAgain] using here

theorem substance_sublist (tokens : List Token) : (substance tokens).Sublist tokens := by
  have kept : ((splitStatements tokens).filter hasSubstance).Sublist (splitStatements tokens) :=
    List.filter_sublist
  have whole := kept.flatten
  rw [flatten_splitStatements] at whole
  exact List.filter_sublist.trans whole

end Token

namespace Formatter

open Token

variable {formatter : Formatter} {source : String} {tokens relexed : List Token}

theorem formatTokens_eq_substance (reads : ReadsText formatter source tokens)
    (unnamed : formatter.style.addColumnNameComments = false)
    (complete : ∀ statement ∈ splitStatements tokens, formatter.IsComplete statement)
    (stay : CommentsStay tokens) :
    formatter.formatTokens tokens =
      "\n\n".intercalate (((splitStatements tokens).filter hasSubstance).map
        (formatter.formatStatement (commentLineStarts none tokens))) := by
  rw [← written_eq reads unnamed complete stay, formatTokens, List.filter_map]
  rfl

theorem formatTokens_eq_twins {change : Token → Token}
    (kinds : ∀ token, (change token).kind = token.kind)
    (again : visible relexed = (substance tokens).map change) :
    formatter.formatTokens relexed =
      "\n\n".intercalate ((((splitStatements tokens).filter hasSubstance).map fun statement =>
        formatter.formatStatement (commentLineStarts none relexed)
          (statement.map change)).filter (· ≠ "")) := by
  have solid (statement : List Token) :
      (visible statement).map change = visible (statement.map change) := by
    simp only [visible, List.filter_map, Function.comp_def, isBlank, kinds]
  rw [formatTokens]
  simp only [← formatter.texts_visible, again, splitStatements_map kinds,
    splitStatements_substance, List.map_map]
  refine congrArg (fun texts : List String => "\n\n".intercalate (texts.filter (· ≠ ""))) ?_
  refine List.map_congr_left fun statement member => ?_
  rw [Function.comp_apply, Function.comp_apply, solid]
  refine formatter.formatStatement_visible _ (tokens.map change) _ ?_
  rw [splitStatements_map kinds]
  exact List.mem_map_of_mem (List.mem_filter.1 member).1

theorem faces_substance (reads : ReadsText formatter source tokens)
    (complete : ∀ statement ∈ splitStatements tokens, formatter.IsComplete statement)
    (stay : CommentsStay tokens) :
    (((splitStatements tokens).filter hasSubstance).flatMap formatter.shown).map Token.face =
      (substance tokens).map Token.face := by
  rw [substance, visible, List.filter_flatten, List.map_flatMap, List.map_flatten, List.map_map,
    ← List.flatMap_def]
  refine List.flatMap_congr fun statement member => ?_
  have part := (List.mem_filter.1 member).1
  exact ((reads.part part).faces_of_complete (complete statement part) (stay.part part)).symm

theorem shows_formatTokens (reads : ReadsText formatter source tokens)
    (unnamed : formatter.style.addColumnNameComments = false)
    (complete : ∀ statement ∈ splitStatements tokens, formatter.IsComplete statement)
    (stay : CommentsStay tokens) (copy : Recasting)
    (sheet : copy.sheet =
      ⟨formatter.style, formatter.registry, formatter.width, commentLineStarts none tokens⟩)
    (starts : copy.starts = commentLineStarts none relexed)
    (begins : ∀ token ∈ tokens, token.isComment = true →
      (commentLineStarts none relexed).contains (copy.change token).start =
        (commentLineStarts none tokens).contains token.start)
    (again : visible relexed = (substance tokens).map copy.change) :
    ∃ marks, (marks.map Mark.token).Sublist
        (((splitStatements tokens).filter hasSubstance).flatMap formatter.shown) ∧
      copy.Shows marks (formatter.formatTokens tokens).toList
        (formatter.formatTokens relexed).toList := by
  have shows : ∀ statement ∈ (splitStatements tokens).filter hasSubstance,
      ∃ marks, (marks.map Mark.token).Sublist (formatter.shown statement) ∧
        copy.Shows marks
          (formatter.formatStatement (commentLineStarts none tokens) statement).toList
          (formatter.formatStatement (commentLineStarts none relexed)
            (statement.map copy.change)).toList := by
    intro statement member
    have part := (List.mem_filter.1 member).1
    have begun := fun token inside =>
      begins token (mem_of_mem_splitStatements tokens statement part token inside)
    rw [← starts] at begun ⊢
    refine formatter.shows_formatStatement copy sheet statement ?_
    rwa [sheet]
  have filled : ∀ text ∈ ((splitStatements tokens).filter hasSubstance).map fun statement =>
      formatter.formatStatement (commentLineStarts none relexed) (statement.map copy.change),
      decide (text ≠ "") = true := by
    intro text member
    obtain ⟨statement, kept, rfl⟩ := List.mem_map.1 member
    obtain ⟨marks, -, drawn⟩ := shows statement kept
    rw [← written_eq reads unnamed complete stay] at kept
    rw [decide_eq_true_eq, ne_eq, drawn.sameLines.eq_empty]
    simpa using (List.mem_filter.1 kept).2
  rw [formatTokens_eq_substance reads unnamed complete stay,
    formatTokens_eq_twins (fun token => (copy.twins token).kind) again,
    List.filter_eq_self.2 filled]
  exact Recasting.exists_shows_intercalate _ _ _ _ shows

/-- A text that is read as its tokens, each in its place, is formatted to the same text if the
same comments begin a line. -/
theorem formatTokens_again {placements : List Placement}
    (reads : ReadsText formatter source tokens)
    (reserved : reservedWords ⊆ formatter.registry.reserved)
    (unnamed : formatter.style.addColumnNameComments = false)
    (complete : ∀ statement ∈ splitStatements tokens, formatter.IsComplete statement)
    (stay : CommentsStay tokens) (rising : Ascending relexed)
    (placed : tokens.any isComment = true → comments relexed = comments tokens)
    (row : Placement.row placements = (formatter.formatTokens tokens).toList)
    (kept : placements.map Placement.token = substance tokens)
    (same : List.Forall₂ (Rewritten formatter.registry) placements (visible relexed)) :
    formatter.formatTokens relexed = formatter.formatTokens tokens := by
  have ascending := ascending_of_tiles (tiles_of_tokens? _ source tokens reads.lexed)
  have once : (placements.map Placement.token).Nodup := by
    rw [kept]
    refine (ascending.sublist (substance_sublist tokens)).imp fun less equal => ?_
    rw [equal] at less
    exact Nat.lt_irrefl _ less
  obtain ⟨copy, sheet, starts, again, stands⟩ := Recasting.exists_recasting reads.phrases reserved
    ⟨formatter.style, formatter.registry, formatter.width, commentLineStarts none tokens⟩
    (commentLineStarts none relexed) unnamed same once
  rw [kept] at again
  have kinds (token : Token) : (copy.change token).kind = token.kind := (copy.twins token).kind
  have begins (token : Token) (member : token ∈ tokens) (comment : token.isComment = true) :=
    begins_of_comments ascending rising kinds again.symm
      (placed (List.any_eq_true.2 ⟨token, member, comment⟩)) token member comment
  obtain ⟨marks, inside, drawn⟩ := shows_formatTokens reads unnamed complete stay copy sheet starts
    begins again.symm
  rw [← row] at drawn
  refine String.toList_injective ((drawn.unchanged_row (sheet ▸ unnamed) inside
    (Recasting.holds_of_faces stands ?_ fun token member => ?_)).trans row)
  · rw [kept, faces_substance reads complete stay]
  · obtain ⟨statement, full, shown⟩ := List.mem_flatMap.1 member
    exact (reads.part (List.mem_filter.1 full).1).comma_shown token shown

theorem forall₂_rewritten {placements : List Placement} {text : String}
    (reads : ReadsText formatter source tokens) (plain : IsRegular source tokens)
    (spaced : ∀ token ∈ tokens, token.isReserved = true → Text.collapse token.text = token.text)
    (kept : placements.map Placement.token = substance tokens)
    (sound : ∀ placement ∈ placements, placement.Sound)
    (again : Token.tokens? formatter.registry text = .ok relexed)
    (same : List.Forall₂ ReadAs placements (visible relexed)) :
    List.Forall₂ (Rewritten formatter.registry) placements (visible relexed) := by
  have spells := Registry.spells_of_common reads.phrases
  have here : ∀ placement ∈ placements, placement.Sound ∧ IsNeat placement.token ∧
      placement.token.kind ≠ .blank ∧
      ∃ behind, ReadFrom formatter.registry placement.token behind := by
    intro placement member
    have inside : placement.token ∈ substance tokens := kept ▸ List.mem_map_of_mem member
    have inSource := mem_of_mem_substance tokens _ inside
    obtain ⟨behind, read⟩ := readFrom_of_mem _ source tokens reads.lexed _ inSource
    refine ⟨sound placement member, ?_, ?_, behind, read⟩
    · exact read.isNeat spells (plain.ascii_text reads.lexed _ inSource) (spaced _ inSource)
    · simpa [Token.isBlank] using (List.mem_filter.1 inside).2
  have there : ∀ token ∈ visible relexed,
      ∃ behind, ReadFrom formatter.registry token behind := fun token member =>
    readFrom_of_mem _ text relexed again token (List.mem_filter.1 member).1
  have both := (List.forall₂_and_left _ _).2 ⟨there, same.flip⟩
  refine ((List.forall₂_and_left _ _).2 ⟨here, both.flip⟩).imp ?_
  rintro placement token ⟨⟨sound, neat, solid, read⟩, reread, readAs⟩
  exact ⟨readAs, sound, neat, solid, read, reread⟩

/-- Formatting a regular source twice is formatting it once: where all tokens are shown,
keywords of several words have single spaces between them, no line comment stands in front of a
comma and the same comments begin a line before and after, what is formatted stays as it is.
This holds for the common phrases and reserved words with any others, for all widths, and for
all styles that separate names by points and do not name columns. -/
theorem format_idempotent (formatter : Formatter)
    (phrases : formatter.registry.compounds = commonPhrases)
    (reserved : reservedWords ⊆ formatter.registry.reserved) (source : String)
    (tokens : List Token) (lexed : Token.tokens? formatter.registry source = .ok tokens)
    (plain : IsRegular source tokens)
    (spaced : ∀ token ∈ tokens, token.isReserved = true → Text.collapse token.text = token.text)
    (stay : Token.CommentsStay tokens)
    (placed : tokens.any Token.isComment = true → ∀ relexed,
      Token.tokens? formatter.registry (formatter.formatTokens tokens) = .ok relexed →
        Token.comments relexed = Token.comments tokens)
    (complete : ∀ statement ∈ Token.splitStatements tokens, formatter.IsComplete statement)
    (unnamed : formatter.style.addColumnNameComments = false)
    (separator : formatter.style.catalogSeparator = '.') :
    ∃ text, formatter.format source = .ok text ∧ formatter.format text = .ok text := by
  have reads : ReadsText formatter source tokens := ⟨phrases, lexed⟩
  obtain ⟨placements, row, kept, sound, rereads⟩ :=
    exists_rereading reads plain stay unnamed separator complete
  obtain ⟨relexed, notices, stop, finished, run, same⟩ := rereads 0
  rw [row] at run
  have again : Token.tokens? formatter.registry (formatter.formatTokens tokens) = .ok relexed :=
    (Token.tokens?_eq_ok_iff _ _ _).2
      ⟨(congrArg (·.stop.rest) run).trans finished, congrArg (·.tokens) run⟩
  refine ⟨formatter.formatTokens tokens, by rw [format, reads.lexed]; rfl, ?_⟩
  have rewritten := forall₂_rewritten reads plain spaced kept sound again same
  have rising := ascending_of_tiles (Token.tiles_of_tokens? _ _ relexed again)
  rw [format, again, Except.map, formatTokens_again reads reserved unnamed complete stay rising
    (fun some => placed some relexed again) row kept rewritten]

def groupedSum : List Token :=
  [.plain .comment "-- all" 0, .plain .blank "\n" 6, ⟨.reservedWord, "Select", 7, "SELECT"⟩,
    .plain .blank " " 13, .plain .identifier "a" 14, .plain .operator "." 15,
    .plain .identifier "B" 16, .plain .operator "+" 17, .plain .blank " " 18,
    .plain .numberLiteral "-1" 19, .plain .blank " " 21, .plain .operator "::" 22,
    .plain .blank " " 24, .plain .identifier "int" 25, .plain .blank " " 28,
    .plain .comment "/* n */" 29, .plain .blank "\n" 36,
    ⟨.reservedWord, "group by", 37, "GROUP BY"⟩, .plain .blank " " 45, .plain .identifier "c" 46,
    .plain .blank " " 47, .plain .comment "-- last" 48, .plain .blank "\n" 55,
    .plain .semicolon ";" 56, .plain .semicolon ";" 57]

theorem format_idempotent_sum :
    standard.format "-- all\nSelect a.B+ -1 :: int /* n */\ngroup by c -- last\n;;" =
        .ok "-- all\nSELECT a.B + -1::INT /* n */\nGROUP BY c -- last\n;" ∧
      standard.format "-- all\nSELECT a.B + -1::INT /* n */\nGROUP BY c -- last\n;" =
        .ok "-- all\nSELECT a.B + -1::INT /* n */\nGROUP BY c -- last\n;" := by
  have lexed := (Token.tokens?_eq_ok_iff (Registry.common {})
    "-- all\nSelect a.B+ -1 :: int /* n */\ngroup by c -- last\n;;" groupedSum).2
    (by decide +kernel)
  have written : standard.formatTokens groupedSum =
      "-- all\nSELECT a.B + -1::INT /* n */\nGROUP BY c -- last\n;" := by decide +kernel
  have text : standard.format "-- all\nSelect a.B+ -1 :: int /* n */\ngroup by c -- last\n;;" =
      .ok "-- all\nSELECT a.B + -1::INT /* n */\nGROUP BY c -- last\n;" := by
    rw [format, show standard.registry = (Registry.common {}) from rfl, lexed]
    exact congrArg Except.ok written
  have placed (relexed : List Token)
      (again : Token.tokens? (Registry.common {}) (standard.formatTokens groupedSum) =
        .ok relexed) : Token.comments relexed = Token.comments groupedSum := by
    rw [← ((Token.tokens?_eq_ok_iff _ _ _).1 again).2, written]
    decide +kernel
  obtain ⟨result, once, again⟩ := format_idempotent standard rfl
    (fun _ member => List.mem_append_left _ member) _ groupedSum lexed
    ⟨by simp [Text.IsAscii], by decide +kernel⟩ (by decide +kernel) (by decide +kernel)
    (fun _ => placed)
    (by unfold IsComplete; decide +kernel) rfl rfl
  obtain rfl := Except.ok.inj (text.symm.trans once)
  exact ⟨text, again⟩

end Formatter

end SqlLayout
