import SqlLayout.Token.Basic

/-! The shape of a statement. A statement is made of runs of elements; an element is
a token, a group in parentheses or a CASE expression. Commas cut a run into items,
AND and OR cut it into conditions, keywords cut it into clauses. The parts that hold
runs do not care what an element is, so they are written over any type of elements. -/
namespace SqlLayout.Tree

inductive Role where
  | subquery
  | grouping
  | call
  | tuple
  deriving DecidableEq, Repr

/-- The items between the commas of a run, and the commas. -/
structure Items (α : Type) where
  items : List (List α)
  commas : List Token

/-- A member of a chain of conditions with the word that joins it to the chain. -/
structure Condition (α : Type) where
  connector : Option Token
  elements : List α

structure Branch (α : Type) where
  keyword : Token
  elements : List α

/-- A joined source, with its ON conditions or with USING and what follows. -/
structure Join (α : Type) where
  keyword : Token
  source : List α
  conditions : List (Condition α)
  columns : List α

/-- What a clause holds, by the kind of its keyword. -/
inductive ClauseBody (α : Type) where
  | run (elements : List α)
  | projection (modifiers : List α) (columns : Items α)
  | sources (tables : Items α) (joins : List (Join α))
  | predicate (conditions : List (Condition α))
  | list (entries : Items α)

structure Clause (α : Type) where
  keyword : Option Token
  body : ClauseBody α

structure Case (α : Type) where
  keyword : Token
  closing : Token
  depth : Nat
  operand : List α
  branches : List (Branch α)

mutual

inductive Element where
  | token (token : Token)
  | group (group : Group)
  | case (case : Case Element)

/-- Parentheses with what they enclose: a statement, or a run of elements. The items
are the run cut at its commas, where that has been done. -/
structure Group where
  opening : Token
  closing : Token
  depth : Nat
  role : Role
  body : Option Statement
  elements : List Element
  items : List (List Element)

structure Statement where
  leading : List Token
  form : Form
  trailing : List Token

inductive Form where
  | query (clauses : List (Clause Element))
  | insert (keyword : Token) (target : List Element) (columns : Option Group)
      (source : InsertSource)
  | update (keyword : Token) (target : List Element) (clauses : List (Clause Element))
  | delete (keyword : Token) (target : List Element) (clauses : List (Clause Element))
  | merge (keyword : Token) (target : List Element) (source : MergeSource)
      (branches : List MergeBranch)
  | withQueries (keyword : Token) (modifiers : List Element) (definitions : List Definition)
      (commas : List Token) (body : Statement)
  | create (keyword : Token) (object : List Element) (columns : Option Group)
      (rest : CreateRest)
  | grant (keyword : Token) (privileges : List Element) (clauses : List (Branch Element))
  | raw (elements : List Element)

inductive InsertSource where
  | nothing
  | values (keyword : Token) (rows : Items Element) (tail : Option (Branch Element))
  | statement (body : Statement)

structure MergeSource where
  keyword : Token
  source : List Element
  conditions : List (Condition Element)

/-- A WHEN part of a MERGE: the words up to THEN, and what is then done. -/
structure MergeBranch where
  keyword : Token
  head : List Element
  action : Form

structure Definition where
  head : List Element
  keyword : Token
  modifiers : List Element
  query : Group

inductive CreateRest where
  | nothing
  | query (keyword : Token) (body : Statement)
  | run (elements : List Element)

end

namespace Element

def token? : Element → Option Token
  | .token word => some word
  | _ => none

def isTokenWith (property : Token → Bool) (element : Element) : Bool :=
  element.token?.any property

def isKeyword (words : List String) : Element → Bool :=
  isTokenWith (Token.isKeyword · words)

theorem isKeyword_append (element : Element) (words more : List String) :
    element.isKeyword (words ++ more) = (element.isKeyword words || element.isKeyword more) := by
  cases element with
  | token token =>
    simp only [isKeyword, isTokenWith, token?, Option.any_some, Token.isKeyword,
      List.contains_append, Bool.and_or_distrib_left]
  | group inner => rfl
  | case inner => rfl

def isComma : Element → Bool :=
  isTokenWith fun token => token.kind = .comma

def isComment : Element → Bool :=
  isTokenWith Token.isComment

def isLineComment : Element → Bool :=
  isTokenWith Token.isLineComment

def isReserved : Element → Bool :=
  isTokenWith Token.isReserved

def group? : Element → Option Group
  | .group inner => some inner
  | _ => none

def isGroup (element : Element) : Bool :=
  element.group?.isSome

end Element

def Group.isSubquery (group : Group) : Bool :=
  group.role = .subquery

def Statement.ofForm (form : Form) : Statement :=
  ⟨[], form, []⟩

end SqlLayout.Tree
