import SqlLayout.Proofs.Checked
import SqlLayout.Proofs.Filled
import SqlLayout.Proofs.DrawingForms

/-! Drawing the nodes of a tree with every step checked gives what drawing the tree gives,
as long as the nodes have what they are to have. Parentheses that are entered are left again,
so the ones around a text are still there behind it. -/
namespace SqlLayout.Layout

open SqlLayout.Tree SqlLayout.Style

namespace Writer

variable (w : Writer)

@[simp] theorem parens_spaces (count : Nat) : (w.spaces count).parens = w.parens := by
  unfold spaces
  split <;> rfl

@[simp] theorem parens_space : w.space.parens = w.parens :=
  w.parens_spaces 1

@[simp] theorem parens_padTo (column : Nat) : (w.padTo column).parens = w.parens := by
  unfold padTo
  split
  · exact w.parens_space
  · split <;> rfl

@[simp] theorem parens_newline (indent : Nat) : (w.newline indent).parens = w.parens := by
  unfold newline
  split
  · exact parens_space _
  · rfl

@[simp] theorem parens_settle : w.settle.parens = w.parens := by
  unfold settle
  split
  · exact w.parens_newline _
  · rfl

@[simp] theorem parens_write (text : String) : (w.write text).parens = w.parens := by
  unfold write
  split
  · rfl
  · exact w.parens_settle

@[simp] theorem parens_mark (token : Token) (unary : Bool) :
    (w.mark token unary).parens = w.parens := rfl

@[simp] theorem parens_markAs (token : Token) : (w.markAs token).parens = w.parens := rfl

@[simp] theorem parens_endLineAfterComment (indent : Nat) :
    (w.endLineAfterComment indent).parens = w.parens := rfl

@[simp] theorem parens_enter (role : Role) : (w.enter role).parens = role :: w.parens := rfl

@[simp] theorem parens_leave : w.leave.parens = w.parens.tail := rfl

variable {w} in
theorem parens_entered {parens : List Role} (same : w.parens = parens) (role : Role) :
    (w.enter role).parens = role :: parens :=
  congrArg (role :: ·) same

theorem parens_each {α : Type} (draw : Nat → α → Writer → Writer)
    (keeps : ∀ index entry v, (draw index entry v).parens = v.parens) (index : Nat)
    (entries : List α) : (each draw index entries w).parens = w.parens := by
  induction entries generalizing index w with
  | nil => rfl
  | cons entry rest ih => rw [each, ih, keeps]

end Writer

namespace Sheet

variable (sheet : Sheet) (w : Writer)

@[simp] theorem parens_punct (token : Token) : (punct token w).parens = w.parens := by
  simp [punct]

@[simp] theorem parens_comment (indent : Nat) (token : Token) :
    (sheet.comment indent token w).parens = w.parens := by
  unfold comment
  simp only
  split <;> split <;> simp

@[simp] theorem parens_solid (text : String) (token : Token) :
    (sheet.solid text token w).parens = w.parens := by
  unfold solid
  simp only
  split <;> simp

@[simp] theorem parens_word (indent : Nat) (beforeCall : Bool) (token : Token) :
    (sheet.word indent beforeCall token w).parens = w.parens := by
  unfold word
  split <;> simp

@[simp] theorem parens_token (indent : Nat) (token : Token) :
    (sheet.token indent token w).parens = w.parens :=
  sheet.parens_word w indent false token

@[simp] theorem parens_typeWord (token : Token) : (sheet.typeWord token w).parens = w.parens :=
  sheet.parens_solid w _ token

@[simp] theorem parens_lineBreakComma (indent : Nat) :
    (sheet.lineBreakComma indent w).parens = w.parens := by
  unfold lineBreakComma
  simp only
  repeat' split
  all_goals simp

@[simp] theorem parens_listComma (indent threshold index : Nat) :
    (sheet.listComma indent threshold index w).parens = w.parens := by
  unfold listComma
  repeat' split
  all_goals simp

end Sheet

/-- A step is defined: it gives that writer, in these parentheses. -/
def Gives (parens : List Role) (step : Except Undefined Writer) (w : Writer) : Prop :=
  step = .ok w ∧ w.parens = parens

namespace Gives

variable {parens : List Role} {v w : Writer}

theorem ok (same : w.parens = parens) : Gives parens (.ok w) w :=
  ⟨rfl, same⟩

theorem bind {step : Except Undefined Writer} {rest : Writer → Except Undefined Writer}
    (first : Gives parens step v) (next : v.parens = parens → Gives parens (rest v) w) :
    Gives parens (step >>= rest) w := by
  obtain ⟨rfl, same⟩ := first
  exact next same

theorem leave {step : Except Undefined Writer} {rest : Writer → Except Undefined Writer}
    {role : Role} (inner : Gives (role :: parens) step v)
    (next : v.leave.parens = parens → Gives parens (rest v.leave) w) :
    Gives parens (step >>= fun u => Checked.leave u >>= rest) w := by
  obtain ⟨rfl, same⟩ := inner
  have left : Checked.leave v = .ok v.leave := by simp [Checked.leave, same]
  change Gives parens (Checked.leave v >>= rest) w
  rw [left]
  exact next (by simp [same])

theorem each {α β : Type} {draw : Nat → β → Writer → Except Undefined Writer}
    {plain : Nat → α → Writer → Writer} (part : α → β) (index : Nat) (entries : List α)
    (same : w.parens = parens)
    (step : ∀ place, ∀ entry ∈ entries, ∀ u : Writer, u.parens = parens →
      Gives parens (draw place (part entry) u) (plain place entry u)) :
    Gives parens (Checked.each draw index (entries.map part) w)
      (Writer.each plain index entries w) := by
  induction entries generalizing index w with
  | nil => exact .ok same
  | cons entry rest ih =>
    rw [List.map_cons, Checked.each, Writer.each]
    refine (step index entry (by simp) w same).bind fun kept => ih (index + 1) kept ?_
    exact fun place later member => step place later (List.mem_cons_of_mem _ member)

end Gives

/-- A checked painter gives what the plain one gives, below a height and with all that nodes
are to have. -/
structure Follows (height : Nat) (checked : Checked.Painter) (painter : Painter) : Prop where
  run (mode : RunMode) (indent : Nat) (elements : List Element) (w : Writer)
    (filled : ∀ element ∈ elements, element.Filled) (bound : heightRun elements < height) :
    Gives w.parens (checked.run mode indent (partsOf elements) w)
      (painter.run mode indent elements w)
  statement (base : Nat) (statement : Statement) (w : Writer) (filled : statement.Filled)
    (bound : statement.height < height) :
    Gives w.parens (checked.statement base statement.node w)
      (painter.statement base statement w)
  nothing (mode : RunMode) (indent : Nat) (w : Writer) : painter.run mode indent [] w = w

namespace Follows

variable {height : Nat} {checked : Checked.Painter} {painter : Painter} {parens : List Role}
  {w : Writer}

theorem draws (follows : Follows height checked painter) (same : w.parens = parens)
    (mode : RunMode) (indent : Nat) (elements : List Element)
    (filled : ∀ element ∈ elements, element.Filled) (bound : heightRun elements < height) :
    Gives parens (checked.run mode indent (partsOf elements) w)
      (painter.run mode indent elements w) :=
  same ▸ follows.run mode indent elements w filled bound

theorem states (follows : Follows height checked painter) (same : w.parens = parens)
    (base : Nat) (statement : Statement) (filled : statement.Filled)
    (bound : statement.height < height) :
    Gives parens (checked.statement base statement.node w)
      (painter.statement base statement w) :=
  same ▸ follows.statement base statement w filled bound

end Follows

theorem node_group (group : Group) :
    group.node =
      { kind := .parenGroup, keyword := group.opening, closing := group.closing,
        elements := partsOf group.elements, items := partsOfRuns group.items,
        body := nodeOfBody group.body, role := group.role } := by
  cases group
  rw [Group.node]

theorem kind_node (group : Group) : group.node.kind = .parenGroup := by
  rw [node_group]

theorem isSubquery_node (group : Group) : group.node.isSubquery = group.isSubquery := by
  simp [node_group, Node.isSubquery, Group.isSubquery]

namespace Checked

variable {sheet : Sheet} {height : Nat} {checked : Painter} {painter : Layout.Painter}
  {parens : List Role} {w : Writer}

theorem need_bind {α β : Type} (undefined : Undefined) (value : α)
    (rest : α → Except Undefined β) : (undefined.need (some value) >>= rest) = rest value := rfl

theorem onOneLine?_node (follows : Follows height checked painter) (body : Statement)
    (filled : body.Filled) (bound : body.height < height) :
    onOneLine? sheet checked body.node = .ok (sheet.onOneLine? painter body) := by
  obtain ⟨drawn, -⟩ := follows.statement 0 body { inline := true } filled bound
  unfold onOneLine? Sheet.onOneLine?
  rw [drawn]
  rfl

theorem gives_subquery (follows : Follows height checked painter) (same : w.parens = parens)
    (block : Bool) (body : Statement) (filled : body.Filled) (bound : body.height < height) :
    Gives parens (subquery sheet checked block body.node w)
      (sheet.subquery painter block body w) := by
  unfold subquery Sheet.subquery
  split
  · exact follows.states same _ body filled bound
  split
  · refine (follows.states (by simpa) _ body filled bound).bind fun kept => .ok ?_
    simpa
  rw [onOneLine?_node follows body filled bound]
  cases sheet.onOneLine? painter body with
  | some text => exact .ok (by simpa)
  | none => exact follows.states same _ body filled bound

theorem arguments_partsOf (elements : List Element) :
    arguments (partsOf elements) =
      (partsOf (cutCommas elements).1, ((cutCommas elements).2.map Prod.snd).map partsOf) := by
  induction elements with
  | nil => rfl
  | cons element rest ih =>
    rw [partsOf, arguments, ih, cutCommas]
    cases element with
    | token token =>
      by_cases isComma : token.kind = .comma <;>
        simp [Element.part, Part.token?, isComma, partsOf]
    | group inner => simp [Element.part, Part.token?, partsOf]
    | case inner => simp [Element.part, Part.token?, partsOf]

theorem startsCall_partsOf (elements : List Element) :
    startsCall (partsOf elements) = Layout.startsCall elements := by
  match elements with
  | [] => rfl
  | .token _ :: _ => rfl
  | .group inner :: _ => simp [partsOf, Element.part, startsCall, Layout.startsCall, node_group]
  | .case _ :: _ => rfl

theorem gives_decode (follows : Follows height checked painter) (same : w.parens = parens)
    (nameColumn : Nat) (group : Group) (filled : ∀ element ∈ group.elements, element.Filled)
    (bound : heightRun group.elements < height) :
    Gives parens (decode sheet checked nameColumn group.node w)
      (sheet.decode painter nameColumn group w) := by
  have whole := cutCommas_flatten group.elements
  have front : (cutCommas group.elements).1 ⊆ group.elements := by
    conv_rhs => rw [← whole]
    exact List.subset_append_left _ _
  have behind (part : Token × List Element) (member : part ∈ (cutCommas group.elements).2) :
      part.2 ⊆ group.elements := by
    intro element held
    rw [← whole]
    exact List.mem_append_right _ (List.mem_flatMap.2 ⟨part, member, by simp [held]⟩)
  have part (argument : List Element)
      (member : argument ∈ (cutCommas group.elements).1 ::
        (cutCommas group.elements).2.map Prod.snd) : argument ⊆ group.elements := by
    rcases List.mem_cons.1 member with rfl | later
    · exact front
    · obtain ⟨one, held, rfl⟩ := List.mem_map.1 later
      exact behind one held
  unfold decode Sheet.decode
  simp only [node_group, arguments_partsOf, need_bind, ← List.map_cons]
  refine .leave (.each partsOf 0 _ (Writer.parens_entered (by simpa) .call) ?_) fun kept =>
    .ok (by simpa)
  intro place argument member u sameThere
  have inside := part argument member
  refine follows.draws ?_ {} _ argument (fun element held => filled element (inside held))
    (Nat.lt_of_le_of_lt (heightRun_le_of_subset _ _ inside) bound)
  split <;> split <;> simpa

theorem gives_content (follows : Follows height checked painter) (same : w.parens = parens)
    (block : Bool) (name : Option Token) (group : Group) (filled : group.Filled)
    (bound : group.height ≤ height) :
    Gives parens (content sheet checked block name group.node w)
      (sheet.content painter block name group w) := by
  rw [Sheet.height_group] at bound
  unfold content Sheet.content
  rw [isSubquery_node]
  by_cases isSubquery : group.isSubquery = true
  · rw [if_pos isSubquery]
    obtain ⟨statement, isBody, body⟩ := filled.exists_body isSubquery
    have role : group.role = .subquery := by simpa [Group.isSubquery] using isSubquery
    rw [isBody, heightBody] at bound
    simp only [node_group, isBody, nodeOfBody, need_bind, role]
    exact gives_subquery follows same block statement body (by omega)
  · have other : group.role ≠ .subquery := by simpa [Group.isSubquery] using isSubquery
    rw [if_neg isSubquery]
    simp only [node_group]
    split
    · rename_i isRole _
      exact absurd isRole other
    · exact follows.draws same _ _ group.elements filled.elements (by omega)

theorem gives_group (follows : Follows height checked painter) (same : w.parens = parens)
    (indent : Nat) (block : Bool) (inner : Group) (filled : inner.Filled)
    (bound : inner.height ≤ height) :
    Gives parens (group sheet checked indent block inner.node w)
      (sheet.group painter indent block inner w) := by
  have isEmpty : (partsOf inner.elements).isEmpty = inner.elements.isEmpty := by
    cases inner.elements <;> rfl
  unfold group Sheet.group
  have fields := node_group inner
  simp only [fields, isEmpty, Option.some.injEq, need_bind, Option.getD_some]
  simp only [← fields]
  generalize (if inner.role = .call then w.last else none) = name
  -- Both functions ask this; as one term it is settled for both at once.
  generalize name.filter (fun name =>
    Text.upper name.text = "DECODE" && !inner.elements.isEmpty && !w.inline) = called
  cases called with
  | some name =>
    have small := Sheet.height_group inner
    exact gives_decode follows same _ inner filled.elements (by omega)
  | none =>
    generalize (name.all Token.isComment && sheet.needsSpace w inner.opening) = apart
    have spaced : (if apart then w.space else w).parens = parens := by split <;> simpa
    refine .leave (gives_content follows (Writer.parens_entered (by simpa using spaced) inner.role)
      block name inner filled bound) fun kept => .ok ?_
    rwa [Sheet.parens_token]

theorem gives_branches (follows : Follows height checked painter) (column : Nat)
    (indent : Token → Nat) (branches : List (Branch Element))
    (filled : ∀ branch ∈ branches, ∀ element ∈ branch.elements, element.Filled)
    (bound : heightBranches branches < height) (same : w.parens = parens) :
    Gives parens
      (each (fun _ node v => do
        let keyword ← Undefined.need .noKeyword node.keyword
        checked.run {} (indent keyword) node.elements
          (sheet.token column keyword (v.newline column))) 0 (nodesOfBranches branches) w)
      (Writer.each (fun _ branch v =>
        painter.run {} (indent branch.keyword) branch.elements
          (sheet.token column branch.keyword (v.newline column))) 0 branches w) := by
  rw [nodesOfBranches_eq_map]
  refine .each Branch.node 0 branches same fun place branch member v sameThere => ?_
  have small := heightRun_le_branches member
  exact follows.draws (by simpa) {} _ branch.elements (filled branch member) (by omega)

theorem gives_case (follows : Follows height checked painter) (same : w.parens = parens)
    (case : Case Element) (filled : (Element.case case).Filled)
    (bound : (Element.case case).height ≤ height) :
    ∃ node, (Element.case case).part = .node node ∧ node.kind = .case ∧
      Gives parens (caseExpression sheet checked node w)
        (sheet.caseExpression painter case w) := by
  obtain ⟨keyword, closing, depth, operand, branches⟩ := case
  rw [Element.height] at bound
  refine ⟨_, by rw [Element.part], rfl, ?_⟩
  cases filled with
  | case _ operands others =>
    unfold caseExpression Sheet.caseExpression
    simp only [need_bind]
    refine (follows.draws (by simpa) {} _ operand operands (by omega)).bind fun kept => ?_
    refine (gives_branches follows _ (fun keyword => _ + 3 + keyword.contents.length) branches
      others (by omega) kept).bind fun keptThere => .ok ?_
    simpa

theorem gives_run (follows : Follows height checked painter) (same : w.parens = parens)
    (mode : RunMode) (indent : Nat) (afterAs : Bool) (elements : List Element)
    (filled : ∀ element ∈ elements, element.Filled) (bound : heightRun elements ≤ height) :
    Gives parens (runFrom sheet checked mode indent afterAs (partsOf elements) w)
      (sheet.runFrom painter mode indent afterAs elements w) := by
  induction elements generalizing afterAs w with
  | nil => exact .ok same
  | cons element rest ih =>
    rw [heightRun] at bound
    obtain ⟨head, others⟩ := List.forall_mem_cons.1 filled
    rw [partsOf, runFrom]
    cases element with
    | token token =>
      rw [Sheet.runFrom, Element.part, member, startsCall_partsOf]
      refine Gives.bind ?_ fun kept => ih kept _ others (by omega)
      split
      · exact .ok (by simpa)
      · exact .ok (by simpa)
    | group inner =>
      rw [Element.height] at bound
      rw [Sheet.runFrom, Element.part, member]
      rw [kind_node, isSubquery_node]
      exact (gives_group follows same indent _ inner head.inner (by omega)).bind
        fun kept => ih kept _ others (by omega)
    | case inner =>
      obtain ⟨node, isPart, isKind, gives⟩ := gives_case follows same inner head (by omega)
      rw [Sheet.runFrom, isPart, member, isKind]
      exact gives.bind fun kept => ih kept _ others (by omega)

end Checked

end SqlLayout.Layout
