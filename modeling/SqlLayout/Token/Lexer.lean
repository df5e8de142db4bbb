import SqlLayout.Keyword.Registry
import SqlLayout.Token.Lexeme

/-! Cutting a text into tokens. What the next token is depends on the characters
ahead, on the registry, and on whether the last solid token can be an operand: a
sign belongs to the number after it only if none comes before. Reading stops at a
digit sign that no number starts with; everything else is some token. -/
namespace SqlLayout.Token

open Keyword

def isStringMark (c : Char) : Bool :=
  ['N', 'n', 'E', 'e', 'X', 'x', 'B', 'b'].contains c

def quoted? (c : Char) (rest : List Char) : Option Lexeme :=
  if c = '\'' then some (quotedRun .stringLiteral '\'' 0 rest)
  else if isStringMark c ∧ rest.head? = some '\'' then
    some (quotedRun .stringLiteral '\'' 1 (rest.drop 1))
  else if (c = 'U' ∨ c = 'u') ∧ ['&', '\''].isPrefixOf rest then
    some (quotedRun .stringLiteral '\'' 2 (rest.drop 2))
  else if c = '"' then some (quotedRun .quotedIdentifier '"' 0 rest)
  else if c = '`' then some (quotedRun .quotedIdentifier '`' 0 rest)
  else none

def punctuation? (c : Char) : Option Kind :=
  if c = '(' then some .parenOpen
  else if c = ')' then some .parenClose
  else if c = ',' then some .comma
  else if c = ';' then some .semicolon
  else none

/-- A name after a colon, which is no second colon. -/
def bound? (rest : List Char) : Option Lexeme :=
  if rest.head?.any Text.isWordStart then
    some { kind := .placeholder, more := spanLength Text.isWord rest }
  else none

def specialName? (rest : List Char) : Option Lexeme :=
  match spanLength isSpecialNamePart rest with
  | 0 => none
  | length => some { kind := .identifier, more := length }

/-- The tokens that their first characters alone decide. -/
def marked? (c : Char) (rest : List Char) : Option Lexeme :=
  if Text.isBlank c then some { kind := .blank, more := spanLength Text.isBlank rest }
  else if c = '-' ∧ rest.head? = some '-' then some (lineComment rest)
  else if c = '/' ∧ rest.head? = some '*' then some (blockComment (rest.drop 1))
  else (quoted? c rest).or <|
    if c = '[' then some (bracketed rest)
    else if c = '$' then dollar? rest
    else if c = '?' then some { kind := .placeholder, more := 0 }
    else if c = ':' then bound? rest
    else if c = '@' ∨ c = '#' then specialName? rest
    else (punctuation? c).map fun kind => { kind, more := 0 }

def startsNumber (c : Char) (rest : List Char) : Bool :=
  Text.isDigitSign c || (c = '.' && rest.head?.any Text.isDigitSign)

def signed? (last : Option Token) (c : Char) (rest : List Char) : Option Lexeme :=
  if (c = '+' ∨ c = '-') ∧ !last.any isOperand then
    (numberLength? rest).map fun length => { kind := .numberLiteral, more := length }
  else none

/-- A word of `length` characters, or the longest phrase that starts with it. -/
def wordLexeme (registry : Registry) (c : Char) (rest : List Char) (length : Nat) : Lexeme :=
  let word := String.ofList ((c :: rest).take length)
  let phrase := (registry.compounds.step word).bind fun node =>
    phraseOnward node ((c :: rest).drop length)
  match phrase with
  | some (further, contents) =>
    { kind := .reservedWord, more := length - 1 + further, contents := some contents }
  | none =>
    if registry.isReserved word then
      { kind := .reservedWord, more := length - 1
        contents := some (Text.upper (Text.collapse word)) }
    else { kind := .identifier, more := length - 1 }

def wordOrOperator (registry : Registry) (c : Char) (rest : List Char) : Lexeme :=
  match wordLength? (c :: rest) with
  | some length => wordLexeme registry c rest length
  | none => operatorLexeme c rest

/-- The next lexeme, given the last solid token before it; none at a stray digit. -/
def scan? (registry : Registry) (last : Option Token) (c : Char) (rest : List Char) :
    Option Lexeme :=
  match marked? c rest with
  | some lexeme => some lexeme
  | none =>
    if startsNumber c rest then
      (numberLength? (c :: rest)).map fun length => { kind := .numberLiteral, more := length - 1 }
    else some ((signed? last c rest).getD (wordOrOperator registry c rest))

/-- A place in a text: what lies ahead, and the last solid token behind. -/
structure Cursor where
  position : Nat
  rest : List Char
  last : Option Token

namespace Cursor

def ofSource (source : String) : Cursor :=
  ⟨0, source.toList, none⟩

inductive Reading where
  | atEnd
  | stray
  | token (token : Token) (notices : List Notice) (after : Cursor)

def read (registry : Registry) (cursor : Cursor) : Reading :=
  match cursor.rest with
  | [] => .atEnd
  | c :: rest =>
    match scan? registry cursor.last c rest with
    | none => .stray
    | some lexeme =>
      let text := String.ofList (c :: rest.take lexeme.more)
      let token : Token := ⟨lexeme.kind, text, cursor.position, lexeme.contents.getD text⟩
      let notices := lexeme.openQuote.toList.map fun (quote, offset) =>
        Notice.openQuote quote (cursor.position + offset)
      .token token notices
        ⟨token.stop, rest.drop lexeme.more, if token.isSolid then some token else cursor.last⟩

theorem rest_lt_of_read (registry : Registry) (cursor after : Cursor) (token : Token)
    (notices : List Notice) (step : cursor.read registry = .token token notices after) :
    after.rest.length < cursor.rest.length := by
  unfold read at step
  cases ahead : cursor.rest with
  | nil => simp [ahead] at step
  | cons c rest =>
    simp only [ahead] at step
    split at step
    · simp at step
    · simp only [Reading.token.injEq] at step
      obtain ⟨_, _, rfl⟩ := step
      simp only [List.length_drop, List.length_cons]
      omega

structure Run where
  tokens : List Token
  notices : List Notice
  stop : Cursor

def readAll (registry : Registry) (cursor : Cursor) : Run :=
  match _step : cursor.read registry with
  | .atEnd | .stray => ⟨[], [], cursor⟩
  | .token token notices after =>
    let run := after.readAll registry
    ⟨token :: run.tokens, notices ++ run.notices, run.stop⟩
termination_by cursor.rest.length
decreasing_by exact rest_lt_of_read _ _ _ _ _ _step

theorem read_eq_atEnd_iff (registry : Registry) (cursor : Cursor) :
    cursor.read registry = .atEnd ↔ cursor.rest = [] := by
  unfold read
  cases cursor.rest with
  | nil => simp
  | cons c rest =>
    simp only [reduceCtorEq, iff_false]
    split <;> simp

theorem readAll_of_atEnd (registry : Registry) (cursor : Cursor)
    (step : cursor.read registry = .atEnd) : cursor.readAll registry = ⟨[], [], cursor⟩ := by
  rw [readAll]
  split <;> simp_all

theorem readAll_of_stray (registry : Registry) (cursor : Cursor)
    (step : cursor.read registry = .stray) : cursor.readAll registry = ⟨[], [], cursor⟩ := by
  rw [readAll]
  split <;> simp_all

theorem readAll_of_token (registry : Registry) (cursor after : Cursor) (token : Token)
    (notices : List Notice) (step : cursor.read registry = .token token notices after) :
    cursor.readAll registry =
      ⟨token :: (after.readAll registry).tokens, notices ++ (after.readAll registry).notices,
        (after.readAll registry).stop⟩ := by
  rw [readAll]
  split <;> simp_all

def Run.isComplete (run : Run) : Bool :=
  run.stop.rest.isEmpty

/-- The next token that is not passed over: none at the end of the text. -/
structure Next where
  found : Except Fault (Option Token)
  notices : List Notice
  stop : Cursor

def next (registry : Registry) (skipBlank skipComment : Bool) (cursor : Cursor) : Next :=
  match _step : cursor.read registry with
  | .atEnd => ⟨.ok none, [], cursor⟩
  | .stray => ⟨.error (.strayDigit cursor.position), [], cursor⟩
  | .token token notices after =>
    if (skipBlank && token.isBlank) || (skipComment && token.isComment) then
      let later := after.next registry skipBlank skipComment
      ⟨later.found, notices ++ later.notices, later.stop⟩
    else ⟨.ok (some token), notices, after⟩
termination_by cursor.rest.length
decreasing_by exact rest_lt_of_read _ _ _ _ _ _step

theorem next_of_token (registry : Registry) (skipBlank skipComment : Bool)
    (cursor after : Cursor) (token : Token) (notices : List Notice)
    (step : cursor.read registry = .token token notices after) :
    cursor.next registry skipBlank skipComment =
      if (skipBlank && token.isBlank) || (skipComment && token.isComment) then
        ⟨(after.next registry skipBlank skipComment).found,
          notices ++ (after.next registry skipBlank skipComment).notices,
          (after.next registry skipBlank skipComment).stop⟩
      else ⟨.ok (some token), notices, after⟩ := by
  rw [next]
  split <;> simp_all

end Cursor

def lex (registry : Registry) (source : String) : Cursor.Run :=
  (Cursor.ofSource source).readAll registry

def tokens? (registry : Registry) (source : String) : Except Fault (List Token) :=
  let run := lex registry source
  if run.isComplete then .ok run.tokens else .error (.strayDigit run.stop.position)

end SqlLayout.Token
