import SqlLayout.Proofs.DefinedForms

/-! Formatting does not fail on a text that can be cut into tokens. The tree of each of its
statements is drawn with every step checked and no step turns out to be undefined, so the way
out that there is for a missing place of a list is never taken. -/
namespace SqlLayout

open Keyword Layout

namespace Report

variable {α β : Type}

theorem bind_outcome (report : Report α) (next : α → Report β) (result : β) :
    (report >>= next).outcome = .ok result ↔
      ∃ value, report.outcome = .ok value ∧ (next value).outcome = .ok result := by
  change (Report.bind report next).outcome = .ok result ↔ _
  unfold Report.bind
  cases report.outcome with
  | error fault => simp
  | ok value => simp

end Report

namespace Style

theorem positive_of_threshold (settings : Settings) (key : OptionKey) (number : Nat)
    (found : (readOr settings key 1 readThreshold).outcome = .ok number) : 1 ≤ number := by
  unfold readOr at found
  split at found
  · exact (Except.ok.inj found).le
  · rename_i value _
    unfold readThreshold at found
    split at found
    · cases found
    · split at found
      · exact (Except.ok.inj found).le
      · rename_i whole _
        split at found
        · exact (Except.ok.inj found).le
        · have bound : whole.toNat = number := Except.ok.inj found
          omega

theorem wraps_of_settings (settings : Settings) (style : Style)
    (found : (ofSettings settings).outcome = .ok style) : style.Wraps := by
  simp only [ofSettings, Report.bind_outcome] at found
  obtain ⟨_, -, _, -, _, -, _, -, _, -, select, isSelect, insert, isInsert, update, isUpdate, _, -,
    _, -, _, -, _, -, _, -, _, -, _, -, _, -, _, -, made⟩ := found
  obtain rfl := Except.ok.inj made
  exact ⟨positive_of_threshold _ _ _ isSelect, positive_of_threshold _ _ _ isInsert,
    positive_of_threshold _ _ _ isUpdate⟩

theorem wraps_of_value (value : Value) (style : Style)
    (found : (ofValue value).outcome = .ok style) : style.Wraps := by
  unfold ofValue at found
  split at found
  · obtain rfl := Except.ok.inj found
    exact ⟨Nat.le_refl 1, Nat.le_refl 1, Nat.le_refl 1⟩
  · split at found
    · obtain ⟨settings, -, made⟩ := (Report.bind_outcome _ _ _).1 found
      exact wraps_of_settings settings style made
    · cases found

end Style

namespace Formatter

/-- The text of one statement with every step of its drawing checked, and whether its tree was
given up. That is the way out where a place of a list is missing: the statement is then drawn
as the plain run of its tokens. There is none for other steps that are not defined. -/
def checkedStatement (formatter : Formatter) (lineStarts : List Nat) (tokens : List Token) :
    Except Undefined (String × Bool) :=
  let significant := tokens.filter fun token => !(token.isBlank || token.kind = .semicolon)
  if significant.isEmpty then .ok ("", false)
  else
    let terminator := tokens.getLast?.filter fun token => token.kind = .semicolon
    let vocabulary : Tree.Vocabulary := ⟨formatter.registry, formatter.style.functionNames⟩
    let sheet : Sheet := ⟨formatter.style, formatter.registry, formatter.width, lineStarts⟩
    let statement := (Tree.walk vocabulary tokens).statement
    match Checked.render sheet statement.height statement.node terminator with
    | .ok text => .ok (text, false)
    | .error undefined =>
      if undefined.isIndexing then do
        let run := Tree.Statement.ofForm (.raw (significant.map .token))
        return (← Checked.render sheet run.height run.node terminator, true)
      else .error undefined

def checkedTexts (formatter : Formatter) (tokens : List Token) :
    Except Undefined (List (String × Bool)) :=
  (Token.splitStatements tokens).mapM (formatter.checkedStatement (commentLineStarts none tokens))

theorem checkedStatement_eq (formatter : Formatter) (wraps : formatter.style.Wraps)
    (lineStarts : List Nat) (tokens : List Token)
    (distinct : Tree.Distinct (Tree.countedTokens tokens)) :
    formatter.checkedStatement lineStarts tokens =
      .ok (formatter.formatStatement lineStarts tokens, false) := by
  have empty : (tokens.filter fun token => !(token.isBlank || token.kind = .semicolon)).isEmpty =
      tokens.all fun token => token.isBlank || token.kind = .semicolon := by
    rw [Bool.eq_iff_iff, List.isEmpty_iff, List.filter_eq_nil_iff, List.all_eq_true]
    simp only [Bool.not_eq_true, Bool.not_eq_false']
  unfold checkedStatement formatStatement
  simp only [empty]
  split
  · rfl
  · have filled := Tree.filled_walk ⟨formatter.registry, formatter.style.functionNames⟩ tokens
      distinct
    rw [Checked.render_node _ wraps _ filled]

/-- Whatever the words and the width, every statement of a text that can be cut into tokens
has a node that is drawn without an undefined step, and its tree is not given up; the text is
formatted. -/
theorem format_unfailing (formatter : Formatter) (wraps : formatter.style.Wraps)
    (source : String) (tokens : List Token)
    (lexed : Token.tokens? formatter.registry source = .ok tokens) :
    (∀ statement ∈ Token.splitStatements tokens, ∀ terminator : Option Token,
      let sheet : Sheet := ⟨formatter.style, formatter.registry, formatter.width,
        commentLineStarts none tokens⟩
      let tree := (Tree.walk ⟨formatter.registry, formatter.style.functionNames⟩
        statement).statement
      Checked.render sheet tree.height tree.node terminator = .ok (sheet.render tree terminator)) ∧
    formatter.checkedTexts tokens =
      .ok ((Token.splitStatements tokens).map fun statement =>
        (formatter.formatStatement (commentLineStarts none tokens) statement, false)) ∧
    formatter.format source = .ok (formatter.formatTokens tokens) := by
  have distinct (statement : List Token) (member : statement ∈ Token.splitStatements tokens) :
      Tree.Distinct (Tree.countedTokens statement) :=
    fun first memberFirst second memberSecond =>
      (Tree.ascending_counted _ source tokens statement lexed (.inr member)).eq_of_start first
        second memberFirst memberSecond
  refine ⟨fun statement member terminator => ?_, ?_, ?_⟩
  · exact Checked.render_node _ wraps _ (Tree.filled_walk _ statement (distinct statement member)) _
  · unfold checkedTexts
    have all (statements : List (List Token)) (inside : statements ⊆ Token.splitStatements tokens) :
        statements.mapM (formatter.checkedStatement (commentLineStarts none tokens)) =
          .ok (statements.map fun statement =>
            (formatter.formatStatement (commentLineStarts none tokens) statement, false)) := by
      induction statements with
      | nil => rfl
      | cons first rest ih =>
        rw [List.cons_subset] at inside
        rw [List.mapM_cons, formatter.checkedStatement_eq wraps _ first (distinct first inside.1),
          ih inside.2]
        rfl
    exact all _ (List.Subset.refl _)
  · rw [format, lexed]
    rfl

def threeAbreast : Formatter :=
  ⟨{ maxColumnsSelect := 3, maxColumnsInsert := 3, maxColumnsUpdate := 3 }, 20, .null,
    .common {}⟩

def truncated : List Token :=
  [⟨.reservedWord, "merge", 0, "MERGE"⟩, .plain .blank " " 5, .plain .identifier "t" 6,
    .plain .blank " " 7, ⟨.reservedWord, "using", 8, "USING"⟩, .plain .blank " " 13,
    .plain .identifier "s" 14, .plain .blank " " 15, ⟨.reservedWord, "when", 16, "WHEN"⟩,
    .plain .semicolon ";" 20, ⟨.reservedWord, "insert", 21, "INSERT"⟩, .plain .blank " " 27,
    .plain .identifier "t" 28, .plain .blank " " 29, ⟨.reservedWord, "values", 30, "VALUES"⟩]

theorem format_unfailing_truncated :
    Token.tokens? (Registry.common {}) "merge t using s when;insert t values" =
        .ok truncated ∧
      threeAbreast.style.Wraps ∧
      threeAbreast.checkedTexts truncated =
        .ok [("MERGE t\nUSING s\nWHEN;", false), ("INSERT t\nVALUES", false)] ∧
      threeAbreast.format "merge t using s when;insert t values" =
        .ok "MERGE t\nUSING s\nWHEN;\n\nINSERT t\nVALUES" := by
  have lexed := (Token.tokens?_eq_ok_iff (Registry.common {})
    "merge t using s when;insert t values" truncated).2 (by decide +kernel)
  have wraps : threeAbreast.style.Wraps := ⟨by decide, by decide, by decide⟩
  obtain ⟨-, texts, formatted⟩ := format_unfailing threeAbreast wraps _ truncated lexed
  refine ⟨lexed, wraps, texts.trans ?_, formatted.trans ?_⟩
  · exact congrArg Except.ok (by decide +kernel)
  · exact congrArg Except.ok (by decide +kernel)

end Formatter

end SqlLayout
