import SqlLayout.Token.Stream

/-! The statements that a stream of tokens falls into. Each but the last ends with its
semicolon, and none has another one. Blanks do not matter to where the cuts are, but for a
last statement of nothing else. -/
namespace SqlLayout.Token

theorem isOperand_of_semicolon (token : Token) (ends : token.kind = .semicolon) :
    token.isOperand = false := by
  simp [Token.isOperand, isKeyword, isReserved, ends, Kind.isOperand]

theorem splitStatements_cases (tokens statement : List Token)
    (member : statement ∈ splitStatements tokens) :
    ∃ body, (∀ token ∈ body, token.kind ≠ .semicolon) ∧
      (statement = body ∨ ∃ last, last.kind = .semicolon ∧ statement = body ++ [last]) := by
  induction tokens generalizing statement with
  | nil => simp [splitStatements] at member
  | cons token rest ih =>
    rw [splitStatements] at member
    split at member
    · rename_i ends
      rcases List.mem_cons.1 member with rfl | later
      · exact ⟨[], by simp, .inr ⟨token, ends, rfl⟩⟩
      · exact ih statement later
    · rename_i inside
      split at member
      · rw [List.mem_singleton.1 member]
        exact ⟨[token], by simpa using inside, .inl rfl⟩
      · rename_i first others split
        rcases List.mem_cons.1 member with rfl | later
        · obtain ⟨body, plain, whole⟩ := ih first (by simp [split])
          refine ⟨token :: body, by simpa using ⟨inside, plain⟩, ?_⟩
          rcases whole with rfl | ⟨last, ends, rfl⟩
          · exact .inl rfl
          · exact .inr ⟨last, ends, rfl⟩
        · exact ih statement (split ▸ List.mem_cons_of_mem first later)

theorem mem_of_mem_splitStatements (tokens statement : List Token)
    (member : statement ∈ splitStatements tokens) (token : Token) (inside : token ∈ statement) :
    token ∈ tokens := by
  rw [← flatten_splitStatements tokens]
  exact List.mem_flatten.2 ⟨statement, member, inside⟩

theorem ends_of_splitStatements (tokens : List Token) (front : List (List Token))
    (statement next : List Token) (back : List (List Token))
    (split : splitStatements tokens = front ++ statement :: next :: back) :
    ∃ last, statement.getLast? = some last ∧ last.kind = .semicolon := by
  induction tokens generalizing front statement with
  | nil => simp [splitStatements] at split
  | cons token rest ih =>
    rw [splitStatements] at split
    split at split
    · rename_i ends
      cases front with
      | nil =>
        rw [← (List.cons.inj split).1]
        exact ⟨token, rfl, ends⟩
      | cons first front => exact ih front statement (List.cons.inj split).2
    · split at split
      · cases front <;> simp at split
      · rename_i first others found
        cases front with
        | nil =>
          obtain ⟨rfl, rfl⟩ := List.cons.inj split
          obtain ⟨last, final, ends⟩ := ih [] first found
          exact ⟨last, by rw [List.getLast?_cons, final]; rfl, ends⟩
        | cons other front =>
          obtain ⟨-, rfl⟩ := List.cons.inj split
          exact ih (first :: front) statement found

theorem ends_of_mem_dropLast (tokens statement : List Token)
    (early : statement ∈ (splitStatements tokens).dropLast) :
    ∃ last, statement.getLast? = some last ∧ last.kind = .semicolon := by
  obtain ⟨front, back, before⟩ := List.append_of_mem early
  have some : splitStatements tokens ≠ [] := by
    intro none
    rw [none] at early
    cases early
  have whole := List.dropLast_concat_getLast some
  rw [before, List.append_assoc, List.cons_append] at whole
  cases back with
  | nil => exact ends_of_splitStatements tokens front statement _ [] whole.symm
  | cons next others => exact ends_of_splitStatements tokens front statement next _ whole.symm

/-- A statement begins the text, or a semicolon stands before it; and it is the end of the text,
or ends with a semicolon itself. -/
theorem exists_around (tokens statement : List Token) (member : statement ∈ splitStatements tokens) :
    ∃ front back, tokens = front ++ statement ++ back ∧
      (∀ last, front.getLast? = some last → last.kind = .semicolon) ∧
      (back = [] ∨ ∃ last, statement.getLast? = some last ∧ last.kind = .semicolon) := by
  obtain ⟨before, after, split⟩ := List.append_of_mem member
  have whole := flatten_splitStatements tokens
  rw [split, List.flatten_append, List.flatten_cons] at whole
  refine ⟨before.flatten, after.flatten, by rw [← whole, List.append_assoc], ?_, ?_⟩
  · intro last final
    rcases List.eq_nil_or_concat before with rfl | ⟨front, other, rfl⟩
    · simp at final
    · rw [List.concat_eq_append, List.append_assoc] at split
      obtain ⟨token, ends, kind⟩ := ends_of_splitStatements tokens front other statement after split
      rw [List.concat_eq_append, List.flatten_append, List.getLast?_append] at final
      simp only [List.flatten_cons, List.flatten_nil, List.append_nil, ends, Option.some_or,
        Option.some.injEq] at final
      rw [← final]
      exact kind
  · cases after with
    | nil => exact .inl rfl
    | cons next others =>
      exact .inr (ends_of_splitStatements tokens before statement next others split)

theorem splitStatements_cons (token : Token) (rest : List Token)
    (inside : token.kind ≠ .semicolon) :
    splitStatements (token :: rest) =
      (token :: (splitStatements rest).headD []) :: (splitStatements rest).tail := by
  rw [splitStatements, if_neg inside]
  cases splitStatements rest <;> rfl

theorem splitStatements_statement (tokens statement : List Token)
    (member : statement ∈ splitStatements tokens) : splitStatements statement = [statement] := by
  have filled := ne_nil_of_mem_splitStatements tokens statement member
  obtain ⟨body, plain, whole⟩ := splitStatements_cases tokens statement member
  have alone (body : List Token) (plain : ∀ token ∈ body, token.kind ≠ .semicolon)
      (last : List Token) (ends : last = [] ∨ splitStatements last = [last])
      (filled : body ++ last ≠ []) : splitStatements (body ++ last) = [body ++ last] := by
    induction body with
    | nil => exact ends.resolve_left filled
    | cons token rest ih =>
      rw [List.forall_mem_cons] at plain
      rw [List.cons_append, splitStatements_cons token _ plain.1]
      by_cases nothing : rest ++ last = []
      · rw [nothing]
        rfl
      · rw [ih plain.2 nothing]
        rfl
  rcases whole with rfl | ⟨last, ends, rfl⟩
  · rw [← List.append_nil statement] at filled ⊢
    exact alone statement plain [] (.inl rfl) filled
  · exact alone body plain [last] (.inr (by simp [splitStatements, ends])) filled

def visible (tokens : List Token) : List Token :=
  tokens.filter (!·.isBlank)

@[simp] theorem visible_nil : visible [] = [] := rfl

theorem visible_append (first second : List Token) :
    visible (first ++ second) = visible first ++ visible second :=
  List.filter_append first second

theorem splitStatements_visible (tokens : List Token) :
    splitStatements (visible tokens) =
      ((splitStatements tokens).map visible).filter (· ≠ []) := by
  induction tokens with
  | nil => rfl
  | cons token rest ih =>
    by_cases ends : token.kind = .semicolon
    · have kept (others : List Token) : visible (token :: others) = token :: visible others := by
        simp [visible, isBlank, ends]
      rw [kept, splitStatements, if_pos ends, ih, splitStatements, if_pos ends]
      simp [kept]
    · rw [splitStatements_cons token rest ends]
      by_cases blank : token.isBlank = true
      · have dropped (others : List Token) : visible (token :: others) = visible others := by
          simp [visible, blank]
        rw [dropped, ih]
        cases splitStatements rest <;> simp [dropped]
      · have kept (others : List Token) : visible (token :: others) = token :: visible others := by
          simp [visible, blank]
        rw [kept, splitStatements_cons token _ ends, ih]
        cases split : splitStatements rest with
        | nil => simp [kept]
        | cons first following =>
          cases following with
          | nil => by_cases nothing : visible first = [] <;> simp [kept, nothing]
          | cons second others =>
            obtain ⟨last, final, isEnd⟩ :=
              ends_of_splitStatements rest [] first second others split
            have full : visible first ≠ [] := by
              refine List.ne_nil_of_mem (a := last) (List.mem_filter.2 ⟨?_, ?_⟩)
              · exact List.mem_of_getLast? final
              · simp [isBlank, isEnd]
            simp [kept, full]

theorem splitStatements_map {change : Token → Token}
    (kinds : ∀ token, (change token).kind = token.kind) (tokens : List Token) :
    splitStatements (tokens.map change) = (splitStatements tokens).map (List.map change) := by
  induction tokens with
  | nil => rfl
  | cons token rest ih =>
    by_cases ends : token.kind = .semicolon
    · rw [List.map_cons, splitStatements, if_pos (by rw [kinds, ends]), ih, splitStatements,
        if_pos ends]
      rfl
    · rw [List.map_cons, splitStatements_cons _ _ (by rwa [kinds]), ih,
        splitStatements_cons token rest ends]
      cases splitStatements rest <;> rfl

end SqlLayout.Token
