import SqlLayout.Keyword.Words

/-! Tokens: the pieces that a text is cut into. A token keeps the text it was cut
from and where it starts, counted in characters. Its contents are that text again,
except that a reserved word has them in upper case with single spaces. -/
namespace SqlLayout

inductive Token.Kind where
  | reservedWord
  | identifier
  | quotedIdentifier
  | stringLiteral
  | numberLiteral
  | operator
  | parenOpen
  | parenClose
  | comma
  | semicolon
  | comment
  | blank
  | placeholder
  deriving DecidableEq, Repr

structure Token where
  kind : Token.Kind
  text : String
  start : Nat
  contents : String
  deriving DecidableEq, Repr

namespace Token

namespace Kind

def name : Kind → String
  | .reservedWord => "reserved_word"
  | .identifier => "identifier"
  | .quotedIdentifier => "quoted_identifier"
  | .stringLiteral => "string_literal"
  | .numberLiteral => "number_literal"
  | .operator => "operator"
  | .parenOpen => "paren_open"
  | .parenClose => "paren_close"
  | .comma => "comma"
  | .semicolon => "semicolon"
  | .comment => "comment"
  | .blank => "whitespace"
  | .placeholder => "placeholder"

def isPunctuation : Kind → Bool
  | .parenOpen | .parenClose | .comma | .semicolon => true
  | _ => false

def isLiteral : Kind → Bool
  | .stringLiteral | .numberLiteral => true
  | _ => false

def isOperand : Kind → Bool
  | .identifier | .quotedIdentifier | .stringLiteral | .numberLiteral | .placeholder
  | .parenClose => true
  | _ => false

def isWordLike : Kind → Bool
  | .identifier | .reservedWord => true
  | _ => false

def isName : Kind → Bool
  | .identifier | .quotedIdentifier => true
  | _ => false

end Kind

def plain (kind : Kind) (text : String) (start : Nat) : Token :=
  ⟨kind, text, start, text⟩

def stop (token : Token) : Nat :=
  token.start + token.text.length

def isReserved (token : Token) : Bool :=
  token.kind = .reservedWord

def isCompound (token : Token) : Bool :=
  token.isReserved && token.contents.toList.contains ' '

def isComment (token : Token) : Bool :=
  token.kind = .comment

def isLineComment (token : Token) : Bool :=
  token.isComment && ['-', '-'].isPrefixOf token.text.toList

def isBlank (token : Token) : Bool :=
  token.kind = .blank

/-- Neither blank nor comment. -/
def isSolid (token : Token) : Bool :=
  !token.isBlank && !token.isComment

def isKeyword (token : Token) (words : List String) : Bool :=
  token.isReserved && words.contains token.contents

def isOperand (token : Token) : Bool :=
  token.kind.isOperand || token.isKeyword Keyword.operandWords

@[simp] theorem plain_contents (kind : Kind) (text : String) (start : Nat) :
    (plain kind text start).contents = (plain kind text start).text := rfl

end Token

end SqlLayout
