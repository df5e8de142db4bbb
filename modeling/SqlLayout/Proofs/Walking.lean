import SqlLayout.Proofs.Building

/-! The walk over the tokens of a statement. Parentheses are grouped with a stack of open
groups, and the groups and what is open around them hold all tokens read so far; CASE
expressions are grouped within a run. From there the forms carry the tokens on. -/
namespace SqlLayout.Tree

open SqlLayout.Layout

theorem traceRun_groupCases (depth : Nat) (elements : List Element) :
    traceRun (groupCases depth elements) = traceRun elements := by
  fun_induction groupCases depth elements with
  | case1 => rfl
  | case2 token rest opens inner closing after found operand branches cut ihInner ihAfter =>
    have parts := traceRun_cutAt (fun token _ => token.isKeyword ["WHEN", "ELSE"])
      (groupCases depth inner)
    have whole := untilEnd_flatten 0 rest inner after closing found
    have made : cutAt (fun token _ => token.isKeyword ["WHEN", "ELSE"]) (groupCases depth inner) =
      (operand, branches) := cut
    rw [made, ihInner] at parts
    rw [traceRun, Element.trace, ihAfter, traceRun_token, whole, traceRun_append, traceRun_token,
      parts]
    simp only [Trace.append_assoc]
  | case3 token rest opens missing ih => rw [traceRun, ih, traceRun]
  | case4 token rest other ih => rw [traceRun, ih, traceRun]
  | case5 element rest other ih => rw [traceRun, ih, traceRun]

theorem group_mem_of_groupCases (depth : Nat) (elements : List Element) (inner : Group)
    (member : .group inner ∈ groupCases depth elements) : .group inner ∈ elements := by
  fun_induction groupCases depth elements with
  | case1 => simp at member
  | case2 token rest opens content closing after found operand branches cut ihInner ihAfter =>
    rw [List.mem_cons] at member
    rcases member with same | inside
    · simp at same
    · have whole := untilEnd_flatten 0 rest content after closing found
      rw [whole]
      simp [ihAfter inside]
  | case3 token rest opens missing ih => simpa using ih (by simpa using member)
  | case4 token rest other ih => simpa using ih (by simpa using member)
  | case5 element rest other ih =>
    rw [List.mem_cons] at member ⊢
    exact member.imp_right ih

theorem Tidy.groupCases {elements : List Element} (tidy : Tidy elements) (depth : Nat) :
    Tidy (groupCases depth elements) := by
  intro inner member
  exact tidy inner (group_mem_of_groupCases depth elements inner member)

theorem yields_groupOf (vocabulary : Vocabulary) (depth : Nat) (frame : Frame)
    (content : List Element) (closing : Token) (tidy : Tidy content) :
    (groupOf vocabulary depth frame content closing).Yields fun group =>
      group.IsTidy ∧
        Carries (.opening frame.opening ++ traceRun content ++ .closing closing) group.trace := by
  unfold groupOf
  refine (Build.Yields.any _).bind fun _ _ => ?_
  simp only
  have cased := traceRun_groupCases depth content
  have tidyCased := tidy.groupCases depth
  generalize groupCases depth content = content' at cased tidyCased ⊢
  rw [← cased]
  split
  · rename_i starts
    have filled : content' ≠ [] := by
      rintro rfl
      simp at starts
    refine (carries_statementOf content' tidyCased).bind fun body carries => .pure _ ⟨?_, ?_⟩
    · exact ⟨rfl, rfl, fun nothing =>
        marks_traceRun_ne_nil content' filled (carries.empty nothing)⟩
    · rw [Group.trace, if_pos ⟨rfl, rfl⟩, traceBody]
      exact ((Carries.refl _).append carries).append (.refl _)
  · refine .pure _ ⟨?_, ?_⟩
    · simp only [Group.IsTidy, Group.isSubquery, decide_eq_false_iff_not]
      split
      · simp
      · split <;> simp
    · rw [Group.trace, if_neg (by simp)]
      exact .refl _

def traceStack : List Frame → List Element → Trace
  | [], current => traceRun current
  | frame :: frames, current =>
    traceStack frames frame.before ++ .opening frame.opening ++ traceRun current

theorem traceStack_append (frames : List Frame) (current more : List Element) :
    traceStack frames (current ++ more) = traceStack frames current ++ traceRun more := by
  cases frames with
  | nil => simp only [traceStack, traceRun_append]
  | cons frame frames => simp only [traceStack, traceRun_append, Trace.append_assoc]

theorem ofTokens_cons (token : Token) (rest : List Token) :
    Trace.ofTokens (token :: rest) = .ofToken token ++ .ofTokens rest := rfl

/-- Matching parentheses carries the tokens: what is open, and what is still to come. -/
theorem yields_groupTokens (vocabulary : Vocabulary) (tokens : List Token) (frames : List Frame)
    (current : List Element) (tidyFrames : ∀ frame ∈ frames, Tidy frame.before)
    (tidy : Tidy current) :
    (groupTokens vocabulary frames current tokens).Yields fun elements =>
      Tidy elements ∧
        Carries (traceStack frames current ++ .ofTokens tokens) (traceRun elements) := by
  induction tokens generalizing frames current with
  | nil =>
    cases frames with
    | nil =>
      rw [groupTokens]
      refine (Build.Yields.any _).bind fun _ _ => .pure _ ⟨tidy.groupCases 0, ?_⟩
      rw [traceRun_groupCases]
      simp only [traceStack, Trace.ofTokens, List.map_nil]
      exact .of_moves (.of_eq (by simp [Trace.ext_iff]))
    | cons frame frames =>
      rw [groupTokens]
      exact .throw _
  | cons token rest ih =>
    rw [ofTokens_cons, ← Trace.append_assoc]
    by_cases opens : token.kind = .parenOpen
    · unfold groupTokens
      rw [if_pos opens]
      refine (Build.Yields.any _).bind fun _ _ => ?_
      have onward := ih (⟨token, current⟩ :: frames) [] (by simpa using ⟨tidy, tidyFrames⟩)
        (by simp [Tidy])
      have shown : Trace.opening token = .ofToken token := by
        simp [Trace.ext_iff, Mark.ofToken, opens]
      rwa [traceStack, traceRun, Trace.append_empty, shown] at onward
    by_cases closes : token.kind = .parenClose
    · cases frames with
      | nil =>
        rw [groupTokens, if_neg opens, if_pos closes]
        exact .throw _
      | cons frame frames =>
        rw [groupTokens, if_neg opens, if_pos closes]
        refine (Build.Yields.any _).bind fun _ _ => ?_
        refine (yields_groupOf vocabulary frames.length frame current token tidy).bind ?_
        rintro group ⟨plain, carries⟩
        have tidyBefore := tidyFrames frame (by simp)
        have tidyNext : Tidy (frame.before ++ [.group group]) := by
          intro inner member
          rw [List.mem_append, List.mem_singleton, Element.group.injEq] at member
          rcases member with before | rfl
          · exact tidyBefore inner before
          · exact plain
        refine (ih frames (frame.before ++ [.group group])
          (fun other member => tidyFrames other (List.mem_cons_of_mem _ member)) tidyNext).mono ?_
        rintro elements ⟨tidyElements, onward⟩
        refine ⟨tidyElements, .trans ?_ onward⟩
        have shown : Trace.closing token = .ofToken token := by
          simp [Trace.ext_iff, Mark.ofToken, closes]
        have run : traceRun [.group group] = group.trace := by
          rw [traceRun, traceRun, Element.trace, Trace.append_empty]
        rw [traceStack_append, run, traceStack, ← shown]
        have whole := ((Carries.refl (traceStack frames frame.before)).append carries).append
          (.refl (.ofTokens rest))
        simpa only [Trace.append_assoc] using whole
    · unfold groupTokens
      rw [if_neg opens, if_neg closes]
      have tidyNext : Tidy (current ++ [.token token]) := by
        intro inner member
        exact tidy inner (by simpa using member)
      have onward := ih frames (current ++ [.token token]) tidyFrames tidyNext
      rwa [traceStack_append, traceRun_token, traceRun, Trace.append_empty] at onward

theorem traceRun_tokens (tokens : List Token) :
    traceRun (tokens.map .token) = .ofTokens tokens := by
  induction tokens with
  | nil => rfl
  | cons token rest ih => rw [List.map_cons, traceRun_token, ih, ofTokens_cons]

theorem countedTokens_sublist (statement : List Token) :
    (countedTokens statement).Sublist statement := by
  have kept := (List.dropWhile_sublist (fun token : Token => token.kind = .semicolon)
    (l := (statement.filter (!·.isBlank)).reverse)).reverse
  rw [List.reverse_reverse] at kept
  exact kept.trans List.filter_sublist

theorem mem_of_counted {statement : List Token} (token : Token)
    (counts : token ∈ countedTokens statement) : token ∈ statement :=
  (countedTokens_sublist statement).mem counts

theorem carries_walk (vocabulary : Vocabulary) (tokens : List Token) :
    Carries (.ofTokens (countedTokens tokens)) (walk vocabulary tokens).statement.trace := by
  have grouped := yields_groupTokens vocabulary (countedTokens tokens) [] [] (by simp)
    (by simp [Tidy])
  have built : (build vocabulary (countedTokens tokens)).Yields fun statement =>
      Carries (.ofTokens (countedTokens tokens)) statement.trace := by
    refine grouped.bind ?_
    rintro elements ⟨tidy, carries⟩
    refine (carries_statementOf elements tidy).mono fun statement onward => ?_
    rw [traceStack, traceRun, Trace.empty_append] at carries
    exact carries.trans onward
  unfold walk
  simp only
  split
  · rename_i statement progress outcome
    exact built _ _ _ outcome
  · rw [trace_ofForm, Form.trace, traceRun_tokens]
    exact (Carries.refl _).form _ rfl

end SqlLayout.Tree
