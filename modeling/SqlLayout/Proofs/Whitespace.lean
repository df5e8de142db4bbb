import SqlLayout.Formatter
import SqlLayout.Proofs.InkForms
import SqlLayout.Proofs.Normalizing
import SqlLayout.Proofs.Phrasing

/-! Layout moves blanks only. Two formatters with the same words that put words into the same
case read a text as the same tree, so the ink of what they draw is the same, whatever
their widths, their line breaks and their lists look like. What is left to show here is that
the tokens of a text are genuine: punctuation stands where punctuation is read, and no word
that reads as DECODE is called like a function that converts. -/
namespace SqlLayout.Token

open Keyword Layout

/-- A word that reads as DECODE has no blanks, so it is called DECODE even where it is reserved,
and DECODE does not convert. -/
theorem honest_of_readFrom {registry : Registry} {token : Token} {behind : List Char}
    (phrases : registry.compounds = commonPhrases) (read : ReadFrom registry token behind) :
    Honest token := by
  intro decodes
  have image (c : Char) (inside : c ∈ token.text.toList) :
      ∀ d ∈ Text.upperOf c, d ∈ "DECODE".toList := by
    intro d held
    rw [← decodes, Text.upper_toList]
    exact List.mem_flatMap.2 ⟨c, inside, held⟩
  have visible (c : Char) (inside : c ∈ token.text.toList) : Text.isBlank c = false := by
    by_contra blank
    rw [Bool.not_eq_false] at blank
    have held := image c inside c (by simp [Text.upperOf_of_isBlank c blank])
    have solid : "DECODE".toList.all (!Text.isBlank ·) = true := by decide
    simpa [blank] using List.all_eq_true.1 solid c held
  have filled : token.text ≠ "" := by
    intro empty
    rw [empty] at decodes
    exact absurd decodes (by decide)
  rw [read.contents_eq (Registry.spells_of_common phrases),
    Text.collapse_of_visible _ filled visible]
  split <;> rw [decodes] <;> cbv

end SqlLayout.Token

namespace SqlLayout

open Keyword Layout SqlLayout.Tree

theorem ink_intercalate (texts : List String) :
    ink ("\n\n".intercalate (texts.filter (· ≠ ""))).toList =
      texts.flatMap fun text => ink text.toList := by
  have parts (texts : List (List Char)) :
      ink ("\n\n".toList.intercalate texts) = texts.flatMap ink := by
    have line : ink "\n\n".toList = [] := by decide
    induction texts with
    | nil => rfl
    | cons text rest ih =>
      cases rest with
      | nil => simp
      | cons second others =>
        rw [List.intercalate_cons_cons, ink_append, ink_append, ih, line, List.append_nil]
        rfl
  rw [String.toList_intercalate, parts]
  induction texts with
  | nil => rfl
  | cons text rest ih =>
    by_cases empty : text = ""
    · simpa [empty] using ih
    · simpa [empty] using ih

namespace Formatter

theorem Reads.genuine {formatter : Formatter} {source : String} {tokens statement : List Token}
    (reads : Reads formatter source tokens statement) (mark : Mark)
    (drawn : mark ∈ (formatter.tree statement).trace.marks) : Genuine mark := by
  rcases reads.mark_cases mark drawn with rfl | ⟨token, counts, rfl⟩
  · exact ⟨rfl, fun _ => neutral_comma, fun _ => rfl, neutral_comma.honest⟩
  obtain ⟨behind, read⟩ := reads.readFrom token (mem_of_counted token counts)
  refine ⟨rfl, ?_, read.comma, Token.honest_of_readFrom reads.phrases read⟩
  intro sign
  change token.kind = .parenOpen ∨ token.kind = .comma at sign
  have isSign : token.kind.isPunctuation = true := by
    rcases sign with kind | kind <;> rw [kind] <;> rfl
  have free : token.isReserved = false := by
    rcases sign with kind | kind <;> rw [Token.isReserved, kind] <;> rfl
  have named := read.contents_eq_text free
  change Neutral token
  obtain ⟨c, text, places⟩ := read.punctuation isSign
  have texts : token.text = "(" ∨ token.text = "," := by
    rcases places with ⟨rfl, -⟩ | ⟨-, kind⟩ | ⟨rfl, -⟩ | ⟨-, kind⟩
    · exact .inl (String.toList_injective text)
    · simp [kind] at sign
    · exact .inr (String.toList_injective text)
    · simp [kind] at sign
  refine ⟨?_, ?_, ?_⟩
  · rcases sign with kind | kind <;> simp [kind]
  · rcases texts with text | text <;> rw [text] <;> cbv
  · rcases texts with text | text <;> rw [named, text] <;> cbv

/-- Widths and the options of layout move blanks only: with the same words, two
formatters that agree on the cases of words, on the separator of names, on the functions that
were added and on whether columns are commented give texts with the same ink. A subquery that
one of them leaves on its line and the other spreads out is no exception. -/
theorem format_same_ink (source : String) (tokens : List Token) (first second : Formatter)
    (phrases : second.registry.compounds = commonPhrases)
    (words : first.registry = second.registry)
    (lexed : Token.tokens? second.registry source = .ok tokens)
    (keywords : first.style.keywordCase = second.style.keywordCase)
    (identifiers : first.style.identifierCase = second.style.identifierCase)
    (functions : first.style.functionCase = second.style.functionCase)
    (dataTypes : first.style.dataTypeCase = second.style.dataTypeCase)
    (separator : first.style.catalogSeparator = second.style.catalogSeparator)
    (added : first.style.functionNames = second.style.functionNames)
    (columns : first.style.addColumnNameComments = second.style.addColumnNameComments) :
    ∃ left right, first.format source = .ok left ∧ second.format source = .ok right ∧
      ink left.toList = ink right.toList := by
  refine ⟨first.formatTokens tokens, second.formatTokens tokens, ?_, ?_, ?_⟩
  · rw [format, words, lexed]
    rfl
  · rw [format, lexed]
    rfl
  rw [formatTokens, formatTokens, ink_intercalate, ink_intercalate, List.flatMap_map,
    List.flatMap_map]
  refine List.flatMap_congr fun statement member => ?_
  unfold formatStatement
  split
  · rfl
  have letters (starts : List Nat) :
      SameLetters ⟨first.style, second.registry, first.width, starts⟩
        ⟨second.style, second.registry, second.width, starts⟩ :=
    ⟨keywords, identifiers, functions, dataTypes, separator, added, columns, rfl⟩
  rw [words, added]
  refine Sheet.ink_render (letters _) _ _ ?_
  have reads := (ReadsText.mk phrases lexed).part member
  exact reads.genuine

def narrow : Formatter :=
  { standard with
    style := { commaAfterLineBreak := true, newLineForSubselects := true }
    width := 8 }

def nestedQuery : List Token :=
  [⟨.reservedWord, "select", 0, "SELECT"⟩, .plain .blank " " 6, .plain .identifier "a" 7,
    .plain .comma "," 8, .plain .blank " " 9, .plain .identifier "b" 10, .plain .blank " " 11,
    ⟨.reservedWord, "from", 12, "FROM"⟩, .plain .blank " " 16, .plain .parenOpen "(" 17,
    ⟨.reservedWord, "select", 18, "SELECT"⟩, .plain .blank " " 24, .plain .identifier "c" 25,
    .plain .blank " " 26, ⟨.reservedWord, "from", 27, "FROM"⟩, .plain .blank " " 31,
    .plain .identifier "t" 32, .plain .parenClose ")" 33]

theorem format_same_ink_nested :
    standard.format "select a, b from (select c from t)" =
        .ok "SELECT a,\n       b\nFROM (SELECT c FROM t)" ∧
      narrow.format "select a, b from (select c from t)" =
        .ok "SELECT a\n       ,b\nFROM (\n  SELECT c\n  FROM t\n)" ∧
      ink "SELECT a,\n       b\nFROM (SELECT c FROM t)".toList =
        ink "SELECT a\n       ,b\nFROM (\n  SELECT c\n  FROM t\n)".toList := by
  have lexed := (Token.tokens?_eq_ok_iff (Registry.common {})
    "select a, b from (select c from t)" nestedQuery).2 (by decide +kernel)
  have wide : standard.format "select a, b from (select c from t)" =
      .ok "SELECT a,\n       b\nFROM (SELECT c FROM t)" := by
    rw [format, show standard.registry = (Registry.common {}) from rfl, lexed]
    exact congrArg Except.ok (by decide +kernel)
  have spread : narrow.format "select a, b from (select c from t)" =
      .ok "SELECT a\n       ,b\nFROM (\n  SELECT c\n  FROM t\n)" := by
    rw [format, show narrow.registry = (Registry.common {}) from rfl, lexed]
    exact congrArg Except.ok (by decide +kernel)
  obtain ⟨left, right, first, second, same⟩ := format_same_ink _ nestedQuery standard narrow
    rfl rfl lexed rfl rfl rfl rfl rfl rfl rfl
  rw [Except.ok.inj (wide.symm.trans first), Except.ok.inj (spread.symm.trans second)]
  exact ⟨first, second, same⟩

end Formatter

end SqlLayout
