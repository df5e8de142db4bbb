import SqlLayout.Keyword.Phrases
import SqlLayout.Text.Search
import SqlLayout.Text.Word
import SqlLayout.Token.Basic

/-! How far a token reaches. Each function here looks at the characters from some
point on and says how many of them belong together; none of them looks at a
position. A lexeme gives the kind of the next token and how many characters it has
beyond its first, so a token is never empty. -/
namespace SqlLayout.Token

structure Lexeme where
  kind : Kind
  /-- Characters beyond the first. -/
  more : Nat
  /-- Given for reserved words only. -/
  contents : Option String := none
  /-- A quote without its partner, with its offset in the lexeme. -/
  openQuote : Option (Char × Nat) := none
  deriving DecidableEq, Repr

def spanLength (belongs : Char → Bool) (chars : List Char) : Nat :=
  (chars.takeWhile belongs).length

/-- How many characters after an opening quote reach to its partner, the partner
included. A doubled quote stands for the quote itself. -/
def closeQuote (quote : Char) : List Char → Option Nat
  | [] => none
  | [c] => if c = quote then some 1 else none
  | c :: next :: rest =>
    if c = quote then
      if next = quote then (closeQuote quote rest).map (· + 2) else some 1
    else (closeQuote quote (next :: rest)).map (· + 1)

/-- A quoted run whose opening quote has `offset` characters before it in the token;
`rest` follows the quote. Without a partner the run takes all that is left. -/
def quotedRun (kind : Kind) (quote : Char) (offset : Nat) (rest : List Char) : Lexeme :=
  match closeQuote quote rest with
  | some length => { kind, more := offset + length }
  | none => { kind, more := offset + rest.length, openQuote := some (quote, offset) }

def lineComment (rest : List Char) : Lexeme :=
  { kind := .comment, more := spanLength (· ≠ '\n') rest }

/-- `body` follows the two characters that open the comment. -/
def blockComment (body : List Char) : Lexeme :=
  match Text.findSequence ['*', '/'] body with
  | some length => { kind := .comment, more := length + 3 }
  | none => { kind := .comment, more := body.length + 1 }

/-- Name in square brackets, which may not be empty nor hold a line break or another
opening bracket; an operator if there is no such name. -/
def bracketed (rest : List Char) : Lexeme :=
  let length := spanLength (· ≠ ']') rest
  let name := rest.take length
  if length < rest.length ∧ 0 < length ∧ !name.contains '\n' ∧ !name.contains '[' then
    { kind := .quotedIdentifier, more := length + 1 }
  else { kind := .operator, more := 0 }

def enclosedPlaceholder? (close : Char) (body : List Char) : Option Lexeme :=
  let length := spanLength (· ≠ close) body
  if length < body.length ∧ !(body.take length).any Text.isBlank then
    some { kind := .placeholder, more := length + 2 }
  else none

/-- A string between two equal tags, each a possibly empty name between dollar signs. -/
def tagged? (rest : List Char) : Option Lexeme :=
  let length := if rest.head?.any Text.isWordStart then spanLength Text.isWord rest else 0
  if (rest.drop length).head? = some '$' then
    let tag := '$' :: rest.take (length + 1)
    match Text.findSequence tag (rest.drop (length + 1)) with
    | some distance => some { kind := .stringLiteral, more := length + 1 + distance + tag.length }
    | none => some { kind := .stringLiteral, more := rest.length }
  else none

def dollar? (rest : List Char) : Option Lexeme :=
  match rest with
  | '[' :: body => enclosedPlaceholder? ']' body
  | '{' :: body => enclosedPlaceholder? '}' body
  | _ =>
    match spanLength Text.isDecimal rest with
    | 0 => tagged? rest
    | digits => some { kind := .placeholder, more := digits }

def isNamePart (c : Char) : Bool :=
  Text.isWord c || c = '$' || c = '#'

def isSpecialNamePart (c : Char) : Bool :=
  isNamePart c || c = '@'

def exponentLength : List Char → Nat
  | mark :: rest =>
    if mark = 'e' ∨ mark = 'E' then
      let sign := if rest.head? = some '+' ∨ rest.head? = some '-' then 1 else 0
      match spanLength Text.isDecimal (rest.drop sign) with
      | 0 => 0
      | digits => 1 + sign + digits
    else 0
  | [] => 0

def mantissaLength? (chars : List Char) : Option Nat :=
  match spanLength Text.isDecimal chars with
  | 0 =>
    match chars with
    | '.' :: rest =>
      match spanLength Text.isDecimal rest with
      | 0 => none
      | digits => some (1 + digits)
    | _ => none
  | whole =>
    match chars.drop whole with
    | '.' :: rest => some (whole + 1 + spanLength Text.isDecimal rest)
    | _ => some whole

def numberLength? (chars : List Char) : Option Nat :=
  (mantissaLength? chars).map fun length => length + exponentLength (chars.drop length)

def wordLength? : List Char → Option Nat
  | c :: rest => if Text.isWordStart c then some (1 + spanLength isNamePart rest) else none
  | [] => none

theorem wordLength?_pos (chars : List Char) (length : Nat)
    (found : wordLength? chars = some length) : 0 < length := by
  cases chars with
  | nil => simp [wordLength?] at found
  | cons c rest =>
    simp only [wordLength?] at found
    split at found <;> simp at found
    omega

theorem wordLength?_le (chars : List Char) (length : Nat)
    (found : wordLength? chars = some length) : length ≤ chars.length := by
  cases chars with
  | nil => simp [wordLength?] at found
  | cons c rest =>
    simp only [wordLength?] at found
    split at found <;> simp at found
    have bound := (List.takeWhile_sublist (l := rest) isNamePart).length_le
    simp only [spanLength] at found
    simp only [List.length_cons]
    omega

/-- The longest phrase that goes on from a node of the phrases, as the number of
characters that it takes and its contents. The words must stand apart by blanks only. -/
def phraseOnward (phrases : Keyword.Phrases) (chars : List Char) : Option (Nat × String) :=
  let gap := spanLength Text.isBlank chars
  if gap = 0 then none
  else
    match _found : wordLength? (chars.drop gap) with
    | none => none
    | some length =>
      match phrases.step (String.ofList ((chars.drop gap).take length)) with
      | none => none
      | some child =>
        let taken := gap + length
        match phraseOnward child (chars.drop taken) with
        | some (further, phrase) => some (taken + further, phrase)
        | none => child.phrase.map (taken, ·)
termination_by chars.length
decreasing_by
  have positive := wordLength?_pos _ _ _found
  have bounded := wordLength?_le _ _ _found
  simp only [List.length_drop] at *
  omega

/-- Operators of several characters, a longer one before its beginnings. -/
def longOperators : List (List Char) :=
  [['-', '>', '>'], ['<', '=', '>'], [':', ':'], ['<', '>'], ['!', '='], ['<', '='], ['>', '='],
   ['|', '|'], [':', '='], ['=', '>'], ['-', '>'], ['*', '='], ['^', '='], ['~', '*'],
   ['!', '~'], ['&', '&'], ['<', '<'], ['>', '>']]

def operatorLexeme (c : Char) (rest : List Char) : Lexeme :=
  match longOperators.find? (·.isPrefixOf (c :: rest)) with
  | some operator => { kind := .operator, more := operator.length - 1 }
  | none => { kind := .operator, more := 0 }

end SqlLayout.Token
