import SqlLayout.Keyword.Registry
import SqlLayout.Layout.Writer
import SqlLayout.Style.Basic
import SqlLayout.Text.Blank

/-! Writing single tokens: the space before them and the case of their letters. Both
depend on the token before, so the writer remembers it. -/
namespace SqlLayout.Layout

open Style

structure Sheet where
  style : Style
  registry : Keyword.Registry
  width : Nat
  /-- Where comments start that begin a line of the text. -/
  lineStarts : List Nat

def commaToken : Token :=
  .plain .comma "," 0

def openToken : Token :=
  .plain .parenOpen "(" 0

def closeToken : Token :=
  .plain .parenClose ")" 0

namespace Sheet

def isSeparator (sheet : Sheet) (text : String) : Bool :=
  text = "." || text = sheet.style.catalogSeparator.toString

def gluesAfter (sheet : Sheet) (token : Token) : Bool :=
  token.kind = .operator &&
    (sheet.isSeparator token.text || ["::", "[", "\x7b"].contains token.text)

def gluesBefore (sheet : Sheet) (token last : Token) : Bool :=
  token.kind = .operator &&
    (sheet.isSeparator token.text || ["::", "]", "\x7d"].contains token.text ||
      (token.text = "[" && last.kind.isName))

def needsSpace (sheet : Sheet) (w : Writer) (token : Token) : Bool :=
  match w.last with
  | none => true
  | some last =>
    if last.isComment then true
    else if token.kind = .comma ∨ token.kind = .semicolon ∨ token.kind = .parenClose then false
    else if last.kind = .parenOpen then false
    else if last.kind = .comma then !w.inListParens || sheet.style.spaceAfterInListComma
    else if w.lastUnary then false
    else !sheet.gluesAfter last && !sheet.gluesBefore token last

def isUnaryPlace : Option Token → Bool
  | none => true
  | some last =>
    last.isComment || last.kind = .operator || last.kind = .comma || last.kind = .parenOpen ||
      (last.isReserved && !Keyword.operandWords.contains last.contents)

def isUnary (token : Token) (last : Option Token) : Bool :=
  token.kind = .operator && ["-", "+", "~"].contains token.text && isUnaryPlace last

/-- The case option for a word, by what stands around it; none leaves a reserved word to
the keyword option. -/
def caseFor (sheet : Sheet) (token : Token) (last : Option Token) (beforeCall : Bool) :
    Option WordCase :=
  let style := sheet.style
  let operator := last.filter fun last => last.kind = .operator
  if operator.any fun last => last.text = "::" then some style.dataTypeCase
  else if operator.any fun last => sheet.isSeparator last.text then some style.identifierCase
  else if beforeCall &&
      sheet.registry.isFunction (Text.upper token.contents) style.functionNames then
    some style.functionCase
  else if token.isReserved then none
  else some style.identifierCase

/-- A keyword is written from its contents, or as it is with single spaces. -/
def keywordText (sheet : Sheet) (token : Token) : String :=
  match sheet.style.keywordCase with
  | .asIs => Text.collapse token.text
  | choice => choice.apply token.contents

def cased (sheet : Sheet) (token : Token) (last : Option Token) (beforeCall : Bool) : String :=
  if token.kind.isWordLike then
    match sheet.caseFor token last beforeCall with
    | some choice => choice.apply token.text
    | none => sheet.keywordText token
  else token.text

/-- A comment goes to a new line if it began one in the text. -/
def comment (sheet : Sheet) (indent : Nat) (token : Token) (w : Writer) : Writer :=
  let w := if sheet.lineStarts.contains token.start then w.newline indent else w.space
  let w := (w.write token.text).mark token false
  if token.isLineComment then w.endLineAfterComment indent else w

def punct (token : Token) (w : Writer) : Writer :=
  (w.write token.text).mark token false

def solid (sheet : Sheet) (text : String) (token : Token) (w : Writer) : Writer :=
  let unary := isUnary token w.last
  ((if sheet.needsSpace w token then w.space else w).write text).mark token unary

def word (sheet : Sheet) (indent : Nat) (beforeCall : Bool) (token : Token) (w : Writer) :
    Writer :=
  if token.isComment then sheet.comment indent token w
  else sheet.solid (sheet.cased token w.last beforeCall) token w

def token (sheet : Sheet) (indent : Nat) (token : Token) (w : Writer) : Writer :=
  sheet.word indent false token w

def typeWord (sheet : Sheet) (token : Token) (w : Writer) : Writer :=
  sheet.solid (sheet.style.dataTypeCase.apply token.text) token w

def lineBreakComma (sheet : Sheet) (indent : Nat) (w : Writer) : Writer :=
  if w.inline then (punct commaToken w).space
  else if sheet.style.commaAfterLineBreak then
    let w := punct commaToken (w.newline indent)
    if sheet.style.spaceAfterLineBreakComma then w.space else w.markAs openToken
  else (punct commaToken w).newline indent

def listComma (sheet : Sheet) (indent threshold index : Nat) (w : Writer) : Writer :=
  if index = 0 then w
  else if index % threshold = 0 then sheet.lineBreakComma indent w
  else (punct commaToken w).space

end Sheet

end SqlLayout.Layout
