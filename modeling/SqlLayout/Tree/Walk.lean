import SqlLayout.Keyword.Registry
import SqlLayout.Tree.Cases
import SqlLayout.Tree.Forms

/-! From the tokens of a statement to its tree. Parentheses are matched first, inner
ones before outer ones; where they do not match, or a statement inside them has no
shape, the whole becomes a plain run of its tokens. -/
namespace SqlLayout.Tree

/-- The words that decide whether a parenthesis belongs to a call. -/
structure Vocabulary where
  registry : Keyword.Registry
  functions : List String := []

def Vocabulary.names (vocabulary : Vocabulary) : Element → Bool
  | .token token =>
    token.kind.isName ||
      (token.isReserved &&
        (Keyword.groupingFunctions.contains token.contents ||
          vocabulary.registry.isFunction token.contents vocabulary.functions ||
          vocabulary.registry.isDataType token.contents))
  | _ => false

/-- A parenthesis that is open, with what stands before it in its run. -/
structure Frame where
  opening : Token
  before : List Element

def groupOf (vocabulary : Vocabulary) (depth : Nat) (frame : Frame) (content : List Element)
    (closing : Token) : Build Group := do
  Build.note ((openCases content).map .caseWithoutEnd)
  let content := groupCases depth content
  let first := content.dropWhile Element.isComment |>.head?
  if first.any (Element.isKeyword ["SELECT", "WITH"]) then
    let body ← statementOf content
    return ⟨frame.opening, closing, depth, .subquery, some body, [], []⟩
  else
    let role : Role :=
      if frame.before.getLast?.any vocabulary.names then .call
      else if content.any Element.isComma then .tuple
      else .grouping
    return ⟨frame.opening, closing, depth, role, none, content, []⟩

def Build.setOpen (frames : List Frame) : Build Unit :=
  modify fun progress => { progress with parens := frames.map fun _ => .grouping }

/-- Matches parentheses. `frames` are the open ones, the innermost first, and `current`
is the run inside the innermost. -/
def groupTokens (vocabulary : Vocabulary) (frames : List Frame) (current : List Element) :
    List Token → Build (List Element)
  | [] =>
    match frames with
    | [] => do
      Build.note ((openCases current).map .caseWithoutEnd)
      return groupCases 0 current
    | frame :: _ => throw (.unclosedOpen frame.opening.start)
  | token :: rest =>
    if token.kind = .parenOpen then do
      let frames := ⟨token, current⟩ :: frames
      Build.setOpen frames
      groupTokens vocabulary frames [] rest
    else if token.kind = .parenClose then
      match frames with
      | [] => throw (.unbalancedClose token.start)
      | frame :: frames => do
        Build.setOpen frames
        let group ← groupOf vocabulary frames.length frame current token
        groupTokens vocabulary frames (frame.before ++ [.group group]) rest
    else groupTokens vocabulary frames (current ++ [.token token]) rest

structure Walk where
  statement : Statement
  progress : Progress

/-- The tokens that count: no blanks, and no semicolons at the end. -/
def countedTokens (tokens : List Token) : List Token :=
  ((tokens.filter (!·.isBlank)).reverse.dropWhile fun token => token.kind = .semicolon).reverse

def build (vocabulary : Vocabulary) (tokens : List Token) : Build Statement := do
  statementOf (← groupTokens vocabulary [] [] tokens)

/-- The tree of a statement. A misfit gives the plain run of tokens and a notice. -/
def walk (vocabulary : Vocabulary) (tokens : List Token) : Walk :=
  let counted := countedTokens tokens
  match (build vocabulary counted).run {} with
  | (.ok statement, progress) => ⟨statement, progress⟩
  | (.error misfit, progress) =>
    ⟨.ofForm (.raw (counted.map .token)),
      { progress with notices := progress.notices ++ [.passedThrough misfit] }⟩

end SqlLayout.Tree
