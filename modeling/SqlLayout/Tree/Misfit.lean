/-! Why the tokens of a statement cannot be made into a tree. -/
namespace SqlLayout.Tree

inductive Misfit where
  | unbalancedClose (offset : Nat)
  | unclosedOpen (offset : Nat)
  | definitionWithoutAs
  | definitionWithoutQuery
  deriving DecidableEq, Repr

def Misfit.message : Misfit → String
  | .unbalancedClose offset => s!"Unbalanced ')' at offset {offset}"
  | .unclosedOpen offset => s!"Unclosed '(' at offset {offset}"
  | .definitionWithoutAs => "CTE definition without AS"
  | .definitionWithoutQuery => "CTE definition without a parenthesized query"

end SqlLayout.Tree
