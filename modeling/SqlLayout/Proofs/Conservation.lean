import Mathlib.Data.List.DropRight
import Mathlib.Data.List.Nodup
import SqlLayout.Proofs.Gathering
import SqlLayout.Proofs.Partition

/-! The walk over the tokens of a statement gives a tree whose tokens, in the order of the
text, are the tokens that count. Open parentheses are a stack; what the stack, the run inside
it and the tokens ahead hold together is kept by every step. Two lists with the same members
are the same once they are ordered by their places, since no two tokens of a text start at
the same one. A walk that finds no shape gives the plain run, for which the same holds. -/
namespace SqlLayout.Tree

open SqlLayout.Keyword
open SqlLayout.Token (splitStatements tokens? Stream Tiles)

theorem collectRun_groupCases (depth : Nat) (elements : List Element) :
    collectRun (groupCases depth elements) = collectRun elements := by
  fun_induction groupCases depth elements with
  | case1 => rfl
  | case2 token rest opens inner closing after found operand branches cut ihInner ihAfter =>
    have parts := collect_cutAt (fun token _ => token.isKeyword ["WHEN", "ELSE"])
      (groupCases depth inner)
    have whole := untilEnd_flatten 0 rest inner after closing found
    have made : cutAt (fun token _ => token.isKeyword ["WHEN", "ELSE"]) (groupCases depth inner) =
      (operand, branches) := cut
    rw [made, ihInner] at parts
    rw [collectRun, Element.collect, ihAfter, collectRun_token, whole, collectRun_append,
      collectRun_token, ← parts]
    simp only [List.cons_append, List.append_assoc, List.nil_append]
  | case3 token rest opens missing ih => rw [collectRun_token, ih, collectRun_token]
  | case4 token rest other ih => rw [collectRun_token, ih, collectRun_token]
  | case5 element rest other ih => rw [collectRun, ih, collectRun]

theorem Uncut.groupCases {elements : List Element} (uncut : Uncut elements) (depth : Nat) :
    Uncut (groupCases depth elements) := by
  intro inner member
  exact uncut inner (group_mem_of_groupCases depth elements inner member)

theorem gathers_groupOf (vocabulary : Vocabulary) (depth : Nat) (frame : Frame)
    (content : List Element) (closing : Token) (uncut : Uncut content) :
    (groupOf vocabulary depth frame content closing).Yields fun group =>
      group.items = [] ∧
        Gathers group.collect (.token frame.opening :: content ++ [.token closing]) := by
  unfold groupOf
  refine (Build.Yields.any _).bind fun _ _ => ?_
  simp only
  have cased := collectRun_groupCases depth content
  have uncutCased := uncut.groupCases depth
  generalize groupCases depth content = content' at cased uncutCased ⊢
  split
  · refine (gathers_statementOf content' uncutCased).bind fun body gathers => .pure _ ⟨rfl, ?_⟩
    intro token
    have same := gathers token
    rw [cased] at same
    simp only [Group.collect, collectRuns, collectBody, collectRun_nil, List.append_nil,
      List.cons_append, List.nil_append, collectRun_token, collectRun_append, List.mem_cons,
      List.mem_append, same]
  · refine .pure _ ⟨rfl, .of_eq ?_⟩
    simp only [Group.collect, collectRuns, collectBody, collectRun_nil, List.append_nil,
      List.cons_append, collectRun_token, collectRun_append, cased]

def heldBy : List Frame → List Element → List Element
  | [], current => current
  | frame :: frames, current => heldBy frames frame.before ++ .token frame.opening :: current

theorem heldBy_append (frames : List Frame) (current more : List Element) :
    heldBy frames (current ++ more) = heldBy frames current ++ more := by
  cases frames with
  | nil => rfl
  | cons frame frames => simp only [heldBy, List.append_assoc, List.cons_append]

/-- Matching parentheses keeps the tokens of what is open and of what is still to come. -/
theorem gathers_groupTokens (vocabulary : Vocabulary) (tokens : List Token) (frames : List Frame)
    (current : List Element) (uncutFrames : ∀ frame ∈ frames, Uncut frame.before)
    (uncut : Uncut current) :
    (groupTokens vocabulary frames current tokens).Yields fun elements =>
      Uncut elements ∧
        Gathers (collectRun elements) (heldBy frames current ++ tokens.map .token) := by
  induction tokens generalizing frames current with
  | nil =>
    cases frames with
    | nil =>
      rw [groupTokens]
      refine (Build.Yields.any _).bind fun _ _ => .pure _ ⟨uncut.groupCases 0, .of_eq ?_⟩
      rw [collectRun_groupCases, heldBy, List.map_nil, List.append_nil]
    | cons frame frames =>
      rw [groupTokens]
      exact .throw _
  | cons token rest ih =>
    by_cases opens : token.kind = .parenOpen
    · unfold groupTokens
      rw [if_pos opens]
      refine (Build.Yields.any _).bind fun _ _ => ?_
      have onward := ih (⟨token, current⟩ :: frames) [] (by simpa using ⟨uncut, uncutFrames⟩)
        (by simp [Uncut])
      simpa only [heldBy, List.append_assoc, List.singleton_append, List.map_cons] using onward
    by_cases closes : token.kind = .parenClose
    · cases frames with
      | nil =>
        rw [groupTokens, if_neg opens, if_pos closes]
        exact .throw _
      | cons frame frames =>
        rw [groupTokens, if_neg opens, if_pos closes]
        refine (Build.Yields.any _).bind fun _ _ => ?_
        refine (gathers_groupOf vocabulary frames.length frame current token uncut).bind ?_
        rintro group ⟨plain, gathers⟩
        have uncutNext : Uncut (frame.before ++ [.group group]) := by
          intro inner member
          rw [List.mem_append, List.mem_singleton, Element.group.injEq] at member
          rcases member with before | rfl
          · exact uncutFrames frame (by simp) inner before
          · exact plain
        refine (ih frames (frame.before ++ [.group group])
          (fun other member => uncutFrames other (List.mem_cons_of_mem _ member)) uncutNext).mono ?_
        rintro elements ⟨uncutElements, onward⟩
        refine ⟨uncutElements, fun other => (onward other).trans ?_⟩
        have inside := gathers other
        simp only [List.cons_append, collectRun_token, collectRun_append, List.mem_cons,
          List.mem_append, collectRun_nil, List.not_mem_nil, or_false] at inside
        simp only [heldBy_append, heldBy, List.map_cons, collectRun_append, collectRun_group,
          collectRun_token, collectRun_nil, List.append_nil, List.mem_append, List.mem_cons,
          inside, or_assoc]
    · unfold groupTokens
      rw [if_neg opens, if_neg closes]
      have uncutNext : Uncut (current ++ [.token token]) := by
        intro inner member
        exact uncut inner (by simpa using member)
      have onward := ih frames (current ++ [.token token]) uncutFrames uncutNext
      simpa only [heldBy_append, List.append_assoc, List.singleton_append, List.map_cons]
        using onward

theorem mem_walk (vocabulary : Vocabulary) (tokens : List Token) (token : Token) :
    token ∈ (walk vocabulary tokens).statement.collect ↔ token ∈ countedTokens tokens := by
  have grouped := gathers_groupTokens vocabulary (countedTokens tokens) [] [] (by simp)
    (by simp [Uncut])
  have built : (build vocabulary (countedTokens tokens)).Yields fun statement =>
      ∀ token, token ∈ statement.collect ↔ token ∈ countedTokens tokens := by
    refine grouped.bind ?_
    rintro elements ⟨uncut, held⟩
    refine (gathers_statementOf elements uncut).mono fun statement gathers other => ?_
    have inside := held other
    rw [heldBy, List.nil_append, collectRun_tokens] at inside
    exact (gathers other).trans inside
  unfold walk
  simp only
  split
  · rename_i statement progress outcome
    exact built _ _ _ outcome token
  · rw [Statement.ofForm, Statement.collect, Form.collect, collectRun_tokens, List.append_nil,
      List.nil_append]

def Ascending (tokens : List Token) : Prop :=
  tokens.Pairwise fun first second => first.start < second.start

theorem Ascending.eq_of_start {tokens : List Token} (ascending : Ascending tokens)
    (first second : Token) (memberFirst : first ∈ tokens) (memberSecond : second ∈ tokens)
    (same : first.start = second.start) : first = second := by
  have distinct : (tokens.map Token.start).Nodup :=
    List.pairwise_map.2 (ascending.imp fun less => Nat.ne_of_lt less)
  exact List.inj_on_of_nodup_map distinct memberFirst memberSecond same

theorem mem_dropRepeats (tokens : List Token)
    (once : ∀ first ∈ tokens, ∀ second ∈ tokens, first.start = second.start → first = second)
    (token : Token) : token ∈ dropRepeats tokens ↔ token ∈ tokens := by
  fun_induction dropRepeats tokens with
  | case1 first second rest same ih =>
    obtain rfl : first = second := once first (by simp) second (by simp) same
    have onward := ih fun one memberOne two memberTwo =>
      once one (List.mem_cons_of_mem _ memberOne) two (List.mem_cons_of_mem _ memberTwo)
    rw [onward]
    simp
  | case2 first second rest differ ih =>
    have onward := ih fun one memberOne two memberTwo =>
      once one (List.mem_cons_of_mem _ memberOne) two (List.mem_cons_of_mem _ memberTwo)
    rw [List.mem_cons, List.mem_cons, onward]
  | case3 tokens => rfl

theorem ascending_dropRepeats (tokens : List Token)
    (sorted : tokens.Pairwise fun first second => first.start ≤ second.start) :
    Ascending (dropRepeats tokens) := by
  fun_induction dropRepeats tokens with
  | case1 first second rest same ih =>
    exact ih (sorted.sublist (List.Sublist.cons_cons first (List.sublist_cons_self second rest)))
  | case2 first second rest differ ih =>
    obtain ⟨front, behind⟩ := List.pairwise_cons.1 sorted
    refine List.pairwise_cons.2 ⟨fun token member => ?_, ih behind⟩
    have inside := (dropRepeats_sublist (second :: rest)).mem member
    have next := front second (by simp)
    rcases List.mem_cons.1 inside with rfl | later
    · omega
    · have after := (List.pairwise_cons.1 behind).1 token later
      omega
  | case3 tokens =>
    rename_i short
    cases tokens with
    | nil => exact List.Pairwise.nil
    | cons first others =>
      cases others with
      | nil => exact List.pairwise_singleton _ _
      | cons second rest => exact absurd rfl (short first second rest)

theorem sorted_mergeSort (tokens : List Token) :
    (tokens.mergeSort fun first second => decide (first.start ≤ second.start)).Pairwise
      fun first second => first.start ≤ second.start := by
  have sorted := @List.pairwise_mergeSort Token
    (fun first second => decide (first.start ≤ second.start))
    (fun first second third => by simp only [decide_eq_true_eq]; omega)
    (fun first second => by simp only [Bool.or_eq_true, decide_eq_true_eq]; omega) tokens
  simpa only [decide_eq_true_eq] using sorted

theorem ascending_inTextOrder (tokens : List Token) : Ascending (inTextOrder tokens) :=
  ascending_dropRepeats _ (sorted_mergeSort tokens)

theorem mem_inTextOrder (tokens : List Token)
    (once : ∀ first ∈ tokens, ∀ second ∈ tokens, first.start = second.start → first = second)
    (token : Token) : token ∈ inTextOrder tokens ↔ token ∈ tokens := by
  rw [inTextOrder, mem_dropRepeats, List.mem_mergeSort]
  intro first memberFirst second memberSecond
  rw [List.mem_mergeSort] at memberFirst memberSecond
  exact once first memberFirst second memberSecond

/-- Tokens with the members of a part of a text are, in order, that part. -/
theorem inTextOrder_eq (tokens ordered : List Token) (ascending : Ascending ordered)
    (same : ∀ token, token ∈ tokens ↔ token ∈ ordered) : inTextOrder tokens = ordered := by
  have members (token : Token) : token ∈ inTextOrder tokens ↔ token ∈ ordered := by
    rw [mem_inTextOrder, same]
    intro first memberFirst second memberSecond
    rw [same] at memberFirst memberSecond
    exact ascending.eq_of_start first second memberFirst memberSecond
  have distinct {part : List Token} (order : Ascending part) : part.Nodup :=
    List.Pairwise.imp (fun less equal => by rw [equal] at less; exact Nat.lt_irrefl _ less) order
  have rising := ascending_inTextOrder tokens
  refine List.Perm.eq_of_pairwise ?_ rising ascending
    ((List.perm_ext_iff_of_nodup (distinct rising) (distinct ascending)).2 members)
  intro first second _ _ less greater
  exact absurd (Nat.lt_trans less greater) (Nat.lt_irrefl _)

theorem le_start_of_tiles {position : Nat} {chars : List Char} {tokens : List Token}
    (tiles : Tiles position chars tokens) (token : Token) (member : token ∈ tokens) :
    position ≤ token.start := by
  induction tokens generalizing position chars with
  | nil => simp at member
  | cons first others ih =>
    obtain ⟨-, place, after, -, rest⟩ := tiles
    rcases List.mem_cons.1 member with rfl | later
    · exact place.ge
    · have bound := ih rest later
      rw [Token.stop] at bound
      omega

theorem ascending_of_tiles {position : Nat} {chars : List Char} {tokens : List Token}
    (tiles : Tiles position chars tokens) : Ascending tokens := by
  induction tokens generalizing position chars with
  | nil => exact List.Pairwise.nil
  | cons first others ih =>
    obtain ⟨filled, -, after, -, rest⟩ := tiles
    refine List.pairwise_cons.2 ⟨fun token member => ?_, ih rest⟩
    have bound := le_start_of_tiles rest token member
    have positive : first.text.length ≠ 0 := by
      intro nothing
      exact filled (String.length_eq_zero_iff.1 nothing)
    rw [Token.stop] at bound
    omega

theorem significant_eq_counted (part : List Token) :
    ((Stream.mk part).significant false).rdropWhile (fun token => token.kind = .semicolon) =
      countedTokens part := by
  rw [countedTokens, List.rdropWhile, Stream.significant]
  simp only [Bool.false_and, Bool.not_false, Bool.and_true]

theorem ascending_counted (registry : Registry) (source : String) (tokens part : List Token)
    (lexed : tokens? registry source = .ok tokens)
    (stands : part = tokens ∨ part ∈ splitStatements tokens) : Ascending (countedTokens part) := by
  have inside : part.Sublist tokens := by
    rcases stands with rfl | member
    · exact List.Sublist.refl _
    · rw [← Token.flatten_splitStatements tokens]
      exact List.sublist_flatten_of_mem member
  exact (ascending_of_tiles (Token.tiles_of_tokens? _ source tokens lexed)).sublist
    ((countedTokens_sublist part).trans inside)

/-- Whatever words a text is read with, and whatever words and names of functions the walk knows,
the tree of the text or of one of its statements holds what is not blank, in the order of the
text and without the semicolons at the end. -/
theorem walk_conserves (registry : Registry) (vocabulary : Vocabulary) (source : String)
    (tokens part : List Token) (lexed : tokens? registry source = .ok tokens)
    (stands : part = tokens ∨ part ∈ splitStatements tokens) :
    (walk vocabulary part).statement.tokens =
      ((Stream.mk part).significant false).rdropWhile fun token => token.kind = .semicolon := by
  rw [significant_eq_counted]
  exact inTextOrder_eq _ _ (ascending_counted _ source tokens part lexed stands) (mem_walk _ part)

def commentedNames : List Token :=
  [⟨.reservedWord, "insert", 0, "INSERT"⟩, .plain .blank " " 6, .plain .identifier "t" 7,
    .plain .blank " " 8, .plain .parenOpen "(" 9, .plain .identifier "a" 10,
    .plain .blank " " 11, .plain .comment "-- b" 12, .plain .blank "\n" 16, .plain .comma "," 17,
    .plain .identifier "c" 18, .plain .parenClose ")" 19, .plain .semicolon ";" 20,
    .plain .semicolon ";" 21]

theorem walk_conserves_names :
    tokens? (Registry.common {}) "insert t (a -- b\n,c);;" = .ok commentedNames ∧
    (walk ⟨.common {}, ["T"]⟩ commentedNames).statement.tokens =
      [⟨.reservedWord, "insert", 0, "INSERT"⟩, .plain .identifier "t" 7,
        .plain .parenOpen "(" 9, .plain .identifier "a" 10, .plain .comment "-- b" 12,
        .plain .comma "," 17, .plain .identifier "c" 18, .plain .parenClose ")" 19] := by
  have lexed := (Token.tokens?_eq_ok_iff (Registry.common {}) "insert t (a -- b\n,c);;"
    commentedNames).2 (by decide +kernel)
  exact ⟨lexed, (walk_conserves (.common {}) ⟨.common {}, ["T"]⟩ "insert t (a -- b\n,c);;"
    commentedNames commentedNames lexed (.inl rfl)).trans (by decide +kernel)⟩

end SqlLayout.Tree
