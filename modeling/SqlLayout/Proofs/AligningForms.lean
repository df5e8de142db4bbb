import SqlLayout.Proofs.Aligning

/-! Where CASE expressions are drawn. A layout draws them with writers in states that a writer can
be in, and unless it only tries whether a subquery fits on a line, what has been written with them
begins the text of the statement. What another way of drawing them would do anywhere else makes no
difference to the text. The two ways are followed side by side through all that is drawn; each
time they have come to the same state, and from there the next part is drawn alike. -/
namespace SqlLayout.Layout

open SqlLayout.Tree SqlLayout.Style

namespace Sheet

def runWith (sheet : Sheet) (drawCase : Case Element → Writer → Writer) (painter : Painter)
    (mode : RunMode) (indent : Nat) (afterAs : Bool) : List Element → Writer → Writer
  | [], w => w
  | .token token :: rest, w =>
    let w :=
      if mode.typeAfterAs && afterAs && token.kind.isWordLike then sheet.typeWord token w
      else sheet.word indent (startsCall rest) token w
    sheet.runWith drawCase painter mode indent (token.isKeyword ["AS"]) rest w
  | .group inner :: rest, w =>
    sheet.runWith drawCase painter mode indent false rest
      (sheet.group painter indent (mode.block && inner.isSubquery) inner w)
  | .case inner :: rest, w =>
    sheet.runWith drawCase painter mode indent false rest (drawCase inner w)

def painterWith (sheet : Sheet) (drawCase : Nat → Case Element → Writer → Writer) :
    Nat → Painter
  | 0 => .blank
  | height + 1 =>
    let below := sheet.painterWith drawCase height
    ⟨fun mode indent elements w =>
        sheet.runWith (drawCase height) below mode indent false elements w,
      sheet.statement below⟩

def renderWith (sheet : Sheet) (drawCase : Nat → Case Element → Writer → Writer)
    (statement : Statement) (terminator : Option Token) : String :=
  let w := (sheet.painterWith drawCase (statement.height + 1)).statement 0 statement {}
  (match terminator with
    | some token => w.terminate token.text
    | none => w).text

end Sheet

def Writer.Ends (w final : Writer) : Prop :=
  w.inline = true ∨ w.Leads final

theorem Writer.Ends.of_leads {w v final : Writer} (ends : v.Ends final) (leads : w.Leads v) :
    w.Ends final :=
  ends.imp leads.inline.symm.trans leads.trans

/-- From one state of a writer two ways have led to the same state, if the first goes on to the
final one. -/
structure Meets (final w v u : Writer) : Prop where
  reached : w.Reached
  leads : w.Leads v
  same : v.Ends final → u = v

/-- Two painters lead every writer on, and to the same state if it goes on to the final one. -/
structure Agree (final : Writer) (left right : Painter) : Prop where
  run : ∀ (mode : RunMode) (indent : Nat) (elements : List Element) (w : Writer), w.Reached →
    Meets final w (left.run mode indent elements w) (right.run mode indent elements w)
  statement : ∀ (base : Nat) (body : Statement) (w : Writer), w.Reached →
    Meets final w (left.statement base body w) (right.statement base body w)

theorem Writer.reached_fresh (inline : Bool) : Writer.Reached { inline } :=
  ⟨inline, .refl⟩

theorem Writer.leads_terminate (text : String) (w : Writer) : w.Leads (w.terminate text) := by
  unfold terminate
  split
  · exact (Leads.refl.step (.newline 0 w)).step (.write text _)
  · exact Leads.refl.step (.write text w)

namespace Meets

variable {final w v u : Writer} {left right : Painter} {sheet : Sheet}

theorem start (reached : w.Reached) : Meets final w w w :=
  ⟨reached, .refl, fun _ => rfl⟩

theorem andThen {next other : Writer → Writer} (meets : Meets final w v u)
    (onward : ∀ x : Writer, x.Reached → Meets final x (next x) (other x)) :
    Meets final w (next v) (other u) := by
  obtain ⟨reached, leads, same⟩ := meets
  have later := onward v (leads.reached reached)
  refine ⟨reached, leads.trans later.leads, fun ends => ?_⟩
  rw [same (ends.of_leads later.leads), later.same ends]

theorem both {change : Writer → Writer} (meets : Meets final w v u)
    (leads : ∀ x : Writer, x.Leads (change x)) : Meets final w (change v) (change u) :=
  meets.andThen fun x reached => ⟨reached, leads x, fun _ => rfl⟩

theorem space (meets : Meets final w v u) : Meets final w v.space u.space :=
  meets.both fun x => Writer.Leads.refl.step (.spaces 1 x)

theorem newline (meets : Meets final w v u) (indent : Nat) :
    Meets final w (v.newline indent) (u.newline indent) :=
  meets.both fun x => Writer.Leads.refl.step (.newline indent x)

theorem padTo (meets : Meets final w v u) (column : Nat) :
    Meets final w (v.padTo column) (u.padTo column) :=
  meets.both fun x => Writer.Leads.refl.step (.padTo column x)

theorem write (meets : Meets final w v u) (text : String) :
    Meets final w (v.write text) (u.write text) :=
  meets.both fun x => Writer.Leads.refl.step (.write text x)

theorem markAs (meets : Meets final w v u) (token : Token) :
    Meets final w (v.markAs token) (u.markAs token) :=
  meets.both fun x => Writer.Leads.refl.step (.remember (some token) x.lastUnary x)

theorem enter (meets : Meets final w v u) (role : Role) :
    Meets final w (v.enter role) (u.enter role) :=
  meets.both fun x => Writer.Leads.refl.step (.parens (role :: x.parens) x)

theorem leave (meets : Meets final w v u) : Meets final w v.leave u.leave :=
  meets.both fun x => Writer.Leads.refl.step (.parens x.parens.tail x)

theorem punct (meets : Meets final w v u) (token : Token) :
    Meets final w (Sheet.punct token v) (Sheet.punct token u) :=
  meets.both fun x => (Writer.Leads.refl.step (.write token.text x)).step (.remember _ _ _)

theorem word (meets : Meets final w v u) (indent : Nat) (beforeCall : Bool) (token : Token) :
    Meets final w (sheet.word indent beforeCall token v) (sheet.word indent beforeCall token u) :=
  meets.both fun x => Sheet.leads_word indent beforeCall token x

theorem token (meets : Meets final w v u) (sheet : Sheet) (indent : Nat) (token : Token) :
    Meets final w (sheet.token indent token v) (sheet.token indent token u) :=
  meets.word indent false token

theorem typeWord (meets : Meets final w v u) (token : Token) :
    Meets final w (sheet.typeWord token v) (sheet.typeWord token u) :=
  meets.both fun x => Sheet.leads_solid _ token x

theorem comment (meets : Meets final w v u) (indent : Nat) (token : Token) :
    Meets final w (sheet.comment indent token v) (sheet.comment indent token u) :=
  meets.both fun x => Sheet.leads_comment indent token x

theorem ite {next other : Writer} (condition : Prop) [Decidable condition]
    (meets : Meets final w v u) (onward : Meets final w next other) :
    Meets final w (if condition then next else v) (if condition then other else u) := by
  split
  · exact onward
  · exact meets

theorem beforeComma (meets : Meets final w v u) (condition : Prop) [Decidable condition] :
    Meets final w (if condition then Sheet.punct commaToken v else v)
      (if condition then Sheet.punct commaToken u else u) :=
  meets.ite condition (meets.punct commaToken)

theorem lineBreakComma (meets : Meets final w v u) (indent : Nat) :
    Meets final w (sheet.lineBreakComma indent v) (sheet.lineBreakComma indent u) := by
  refine meets.andThen fun x reached => ?_
  have here : Meets final x x x := start reached
  unfold Sheet.lineBreakComma
  split
  · exact (here.punct commaToken).space
  split
  · simp only
    split
    · exact ((here.newline indent).punct commaToken).space
    · exact ((here.newline indent).punct commaToken).markAs openToken
  · exact (here.punct commaToken).newline indent

theorem listComma (meets : Meets final w v u) (indent threshold index : Nat) :
    Meets final w (sheet.listComma indent threshold index v)
      (sheet.listComma indent threshold index u) := by
  unfold Sheet.listComma
  split
  · exact meets
  split
  · exact meets.lineBreakComma indent
  · exact (meets.punct commaToken).space

theorem run (meets : Meets final w v u) (agree : Agree final left right) (mode : RunMode)
    (indent : Nat) (elements : List Element) :
    Meets final w (left.run mode indent elements v) (right.run mode indent elements u) :=
  meets.andThen (agree.run mode indent elements)

theorem statement (meets : Meets final w v u) (agree : Agree final left right) (base : Nat)
    (body : Statement) : Meets final w (left.statement base body v) (right.statement base body u) :=
  meets.andThen (agree.statement base body)

theorem each {α : Type} (meets : Meets final w v u) (draw other : Nat → α → Writer → Writer)
    (index : Nat) (entries : List α) (entry : ∀ place entry, ∀ x : Writer, x.Reached →
      Meets final x (draw place entry x) (other place entry x)) :
    Meets final w (Writer.each draw index entries v) (Writer.each other index entries u) := by
  induction entries generalizing index v u with
  | nil => exact meets
  | cons first rest ih => exact ih (meets.andThen (entry index first)) (index + 1)

end Meets

namespace Sheet

variable {sheet : Sheet} {left right : Painter} {final w : Writer}

theorem meets_subquery (agree : Agree final left right) (block : Bool) (body : Statement)
    (reached : w.Reached) :
    Meets final w (sheet.subquery left block body w) (sheet.subquery right block body w) := by
  have here : Meets final w w w := .start reached
  have trial : sheet.onOneLine? right body = sheet.onOneLine? left body := by
    have tried := agree.statement 0 body _ (Writer.reached_fresh true)
    rw [onOneLine?, onOneLine?, tried.same (.inl tried.leads.inline)]
  unfold subquery
  split
  · exact here.statement agree _ body
  split
  · exact ((here.newline _).statement agree _ body).newline _
  rw [trial]
  split
  · exact (here.write _).markAs closeToken
  · exact here.statement agree _ body

theorem meets_decode (agree : Agree final left right) (nameColumn : Nat) (group : Group)
    (reached : w.Reached) :
    Meets final w (sheet.decode left nameColumn group w)
      (sheet.decode right nameColumn group w) := by
  have opened : Meets final w (punct group.opening w) (punct group.opening w) :=
    (Meets.start reached).punct group.opening
  have arguments := (opened.enter .call).each
    (fun index argument v => left.run {} (punct group.opening w).column argument
      (if index % 2 = 1 then
        (if index = 0 then v else punct commaToken v).newline (punct group.opening w).column
      else if index = 0 then v else punct commaToken v))
    (fun index argument v => right.run {} (punct group.opening w).column argument
      (if index % 2 = 1 then
        (if index = 0 then v else punct commaToken v).newline (punct group.opening w).column
      else if index = 0 then v else punct commaToken v))
    0 ((cutCommas group.elements).1 :: (cutCommas group.elements).2.map Prod.snd)
    (by
      intro place argument x there
      have comma : Meets final x (if place = 0 then x else punct commaToken x)
          (if place = 0 then x else punct commaToken x) := by
        split
        · exact .start there
        · exact (Meets.start there).punct commaToken
      exact (comma.ite _ (comma.newline _)).run agree {} _ argument)
  exact (arguments.leave.newline nameColumn).token sheet nameColumn group.closing

theorem meets_group (agree : Agree final left right) (indent : Nat) (block : Bool) (group : Group)
    (reached : w.Reached) :
    Meets final w (sheet.group left indent block group w)
      (sheet.group right indent block group w) := by
  unfold Sheet.group
  simp only
  split
  · exact meets_decode agree _ group reached
  · have here : Meets final w w w := .start reached
    refine Meets.token (Meets.leave (((here.ite _ here.space).punct group.opening).enter
      group.role |>.andThen fun x there => ?_)) sheet indent group.closing
    unfold content
    split
    · exact meets_subquery agree block _ there
    · exact (Meets.start there).run agree _ _ group.elements

theorem meets_case (agree : Agree final left right) (case : Case Element) (reached : w.Reached) :
    Meets final w (sheet.caseExpression left case w) (sheet.caseExpression right case w) := by
  have head := ((Meets.start reached).token sheet w.column case.keyword).run agree {}
    ((sheet.token w.column case.keyword w).column - case.keyword.text.length + 5) case.operand
  generalize column :
    (sheet.token w.column case.keyword w).column - case.keyword.text.length = left' at head
  have branches := head.each
    (fun _ branch v => left.run {} (left' + 3 + branch.keyword.contents.length) branch.elements
      (sheet.token (left' + 2) branch.keyword (v.newline (left' + 2))))
    (fun _ branch v => right.run {} (left' + 3 + branch.keyword.contents.length) branch.elements
      (sheet.token (left' + 2) branch.keyword (v.newline (left' + 2))))
    0 case.branches
    (fun _ branch x there =>
      (((Meets.start there).newline _).token sheet _ branch.keyword).run agree {} _ branch.elements)
  unfold caseExpression
  simp only [column]
  exact (branches.newline left').token sheet left' case.closing

theorem meets_runFrom (agree : Agree final left right) (drawCase : Case Element → Writer → Writer)
    (same : ∀ case : Case Element, ∀ v : Writer, v.Reached →
      (sheet.caseExpression left case v).Ends final →
      drawCase case v = sheet.caseExpression left case v)
    (mode : RunMode) (indent : Nat) (afterAs : Bool) (elements : List Element)
    (reached : w.Reached) :
    Meets final w (sheet.runFrom left mode indent afterAs elements w)
      (sheet.runWith drawCase right mode indent afterAs elements w) := by
  induction elements generalizing w afterAs with
  | nil => exact .start reached
  | cons element rest ih =>
    cases element with
    | token token =>
      have written : Meets final w
          (if mode.typeAfterAs && afterAs && token.kind.isWordLike then sheet.typeWord token w
            else sheet.word indent (startsCall rest) token w) _ :=
        ((Meets.start reached).word indent (startsCall rest) token).ite _
          ((Meets.start reached).typeWord token)
      exact written.andThen fun x there => ih (token.isKeyword ["AS"]) there
    | group inner =>
      exact (meets_group agree indent (mode.block && inner.isSubquery) inner reached).andThen
        fun x there => ih false there
    | case inner =>
      have drawn : Meets final w (sheet.caseExpression left inner w) (drawCase inner w) :=
        ⟨reached, (meets_case agree inner reached).leads, same inner w reached⟩
      exact drawn.andThen fun x there => ih false there

end Sheet

namespace Meets

variable {final w v u : Writer} {left right : Painter} {sheet : Sheet}

theorem itemList (meets : Meets final w v u) (agree : Agree final left right)
    (indent threshold : Nat) (items : List (List Element)) :
    Meets final w (sheet.itemList left indent threshold items v)
      (sheet.itemList right indent threshold items u) :=
  meets.each _ _ 0 items fun index item _ there =>
    ((start there).listComma indent threshold index).run agree {} indent item

theorem joinConditions (meets : Meets final w v u) (agree : Agree final left right)
    (indent keywordEnd : Nat) (conditions : List (Condition Element)) :
    Meets final w (sheet.joinConditions left indent keywordEnd conditions v)
      (sheet.joinConditions right indent keywordEnd conditions u) := by
  refine meets.each _ _ 0 conditions fun _ condition x there => ?_
  refine Meets.run ?_ agree {} (keywordEnd + 1) condition.elements
  have here : Meets final x x x := start there
  split
  · exact here
  · exact (here.ite _ (here.newline _)).token sheet indent _

theorem join (meets : Meets final w v u) (agree : Agree final left right) (indent : Nat)
    (join : Join Element) :
    Meets final w (sheet.join left indent join v) (sheet.join right indent join u) :=
  (((meets.token sheet indent join.keyword).run agree _ (indent + 2) join.source).joinConditions
    agree indent _ join.conditions).run agree {} (indent + 2) join.columns

theorem sources (meets : Meets final w v u) (agree : Agree final left right) (base : Nat)
    (tables : List (List Element)) (joins : List (Join Element)) :
    Meets final w (sheet.sources left base tables joins v)
      (sheet.sources right base tables joins u) := by
  refine Meets.each (meets.each _ _ 0 tables fun index table x there => ?_) _ _ 0 joins
    fun _ join x there => ((start there).newline (base + 2)).join agree (base + 2) join
  refine Meets.run ?_ agree _ (base + 5) table
  split
  · exact .start there
  · exact ((start there).punct commaToken).newline (base + 5)

theorem predicates (meets : Meets final w v u) (agree : Agree final left right) (base width : Nat)
    (conditions : List (Condition Element)) :
    Meets final w (sheet.predicates left base width conditions v)
      (sheet.predicates right base width conditions u) := by
  refine meets.each _ _ 0 conditions fun index condition x there => ?_
  refine Meets.run ?_ agree {} (base + width + 1) condition.elements
  have here : Meets final x x x := start there
  split
  · exact here
  split
  · exact here.token sheet base _
  split
  · exact (here.newline _).token sheet base _
  · exact ((here.newline base).token sheet base _).padTo _

theorem looseRun (meets : Meets final w v u) (sheet : Sheet) (agree : Agree final left right)
    (base : Nat) (keyword : Token) (elements : List Element) :
    Meets final w (sheet.looseRun left base keyword elements v)
      (sheet.looseRun right base keyword elements u) := by
  unfold Sheet.looseRun
  simp only
  split
  · exact (meets.run agree {} base elements).space
  split
  · exact meets
  split
  · exact meets.space
  split
  · split
    · exact meets
    · exact (meets.newline base).run agree {} base elements
  · exact meets.run agree {} _ elements

theorem clause (meets : Meets final w v u) (agree : Agree final left right) (base : Nat)
    (clause : Clause Element) :
    Meets final w (sheet.clause left base clause v) (sheet.clause right base clause u) := by
  refine meets.andThen fun x there => ?_
  have here : Meets final x x x := start there
  obtain ⟨_ | keyword, body⟩ := clause
  · cases body with
    | run elements => exact here.run agree {} base elements
    | projection | sources | predicate | list => exact here
  · have headed := here.token sheet base keyword
    cases body with
    | run elements => exact headed.looseRun sheet agree base keyword elements
    | projection modifiers columns =>
      exact ((headed.run agree {} base modifiers).space).itemList agree _ _ columns.items
    | sources tables joins => exact headed.sources agree base tables.items joins
    | predicate conditions => exact headed.predicates agree base _ conditions
    | list entries => exact headed.space.itemList agree _ _ entries.items

theorem clauses (meets : Meets final w v u) (agree : Agree final left right) (base : Nat)
    (clauses : List (Clause Element)) :
    Meets final w (sheet.clauses left base clauses v) (sheet.clauses right base clauses u) := by
  refine meets.each _ _ 0 clauses fun index clause x there => ?_
  refine Meets.clause ?_ agree base clause
  split
  · exact .start there
  · exact (start there).newline base

theorem update (meets : Meets final w v u) (agree : Agree final left right) (base setIndent : Nat)
    (keyword : Token) (target : List Element) (clauses : List (Clause Element)) :
    Meets final w (sheet.update left base setIndent keyword target clauses v)
      (sheet.update right base setIndent keyword target clauses u) := by
  refine ((meets.token sheet base keyword).run agree {} (base + 7) target).each _ _ 0 clauses
    fun _ clause x there => ?_
  have here : Meets final x x x := start there
  split
  · split
    · exact (((here.newline setIndent).token sheet setIndent _).space).itemList agree _ _ _
    · exact (here.newline base).clause agree base clause
  · exact (here.newline base).clause agree base clause

theorem delete (meets : Meets final w v u) (agree : Agree final left right) (base : Nat)
    (keyword : Token) (target : List Element) (clauses : List (Clause Element)) :
    Meets final w (sheet.delete left base keyword target clauses v)
      (sheet.delete right base keyword target clauses u) :=
  ((meets.token sheet base keyword).run agree {} (base + 7) target).each _ _ 0 clauses
    fun _ clause _ there => ((start there).newline base).clause agree base clause

theorem columnComment (meets : Meets final w v u) (names : List String) (index : Nat)
    (item : List Element) :
    Meets final w (Sheet.columnComment names index item v).2
      (Sheet.columnComment names index item u).2 := by
  suffices onward : ∀ x : Writer, x.Leads (Sheet.columnComment names index item x).2 from
    meets.both onward
  intro x
  have annotated (text : String) : x.Leads ((x.write text).space.markAs openToken) :=
    ((Writer.Leads.refl.step (.write text x)).step (.spaces 1 _)).step (.remember _ _ _)
  simp only [Sheet.columnComment]
  split
  · exact .refl
  split
  · split
    · exact annotated _
    · exact annotated _
  · exact annotated _

theorem tupleBlock (meets : Meets final w v u) (agree : Agree final left right) (base : Nat)
    (names : List String) (group : Group) :
    Meets final w (sheet.tupleBlock left base names group v)
      (sheet.tupleBlock right base names group u) := by
  refine meets.andThen fun x reached => ?_
  have here : Meets final x x x := start reached
  unfold Sheet.tupleBlock
  simp only
  split
  · refine (((here.newline base).punct group.opening).each _ _ 0 group.items
      fun index item y there => ?_).newline base |>.punct group.closing
    have apart : Meets final y
        (if index = 0 then y.newline (if sheet.style.indentInsert then base + 2 else base)
          else sheet.lineBreakComma (if sheet.style.indentInsert then base + 2 else base) y) _ :=
      ((start there).lineBreakComma _).ite _ ((start there).newline _)
    exact (apart.columnComment names index item).run agree {} _ _
  · refine (((here.newline _).punct group.opening).each _ _ 0 group.items
      fun index item y there => ?_).punct group.closing
    exact (((start there).listComma _ _ index).columnComment names index item).run agree {} _ _

theorem row (meets : Meets final w v u) (agree : Agree final left right) (base : Nat)
    (names : List String) (item : List Element) :
    Meets final w (sheet.row left base names item v) (sheet.row right base names item u) := by
  unfold Sheet.row
  split
  · split
    · exact meets.run agree {} (base + 2) _
    · exact meets.tupleBlock agree base names _
  · exact meets.run agree {} (base + 2) item

theorem insertSource (meets : Meets final w v u) (agree : Agree final left right) (base : Nat)
    (names : List String) (source : InsertSource) :
    Meets final w (sheet.insertSource left base names source v)
      (sheet.insertSource right base names source u) := by
  cases source with
  | nothing => exact meets
  | values keyword rows tail =>
    have drawn := ((meets.newline base).token sheet base keyword).each
      (fun index item w => sheet.row left base
        (if sheet.style.addColumnNameComments then names else []) item
        (if index = 0 then w else Sheet.punct commaToken w))
      (fun index item w => sheet.row right base
        (if sheet.style.addColumnNameComments then names else []) item
        (if index = 0 then w else Sheet.punct commaToken w))
      0 rows.items
      fun index item x there => (((start there).punct commaToken).ite _ (start there)).row agree
        base _ item
    cases tail with
    | none => exact drawn
    | some branch =>
      exact ((drawn.newline base).token sheet base branch.keyword).looseRun sheet agree base
        branch.keyword branch.elements
  | statement body => exact (meets.newline base).statement agree base body

theorem insert (meets : Meets final w v u) (agree : Agree final left right) (base : Nat)
    (keyword : Token) (target : List Element) (columns : Option Group) (source : InsertSource) :
    Meets final w (sheet.insert left base keyword target columns source v)
      (sheet.insert right base keyword target columns source u) := by
  have named := (meets.token sheet base keyword).run agree {} (base + 7) target
  cases columns with
  | none => exact named.insertSource agree base [] source
  | some group =>
    exact (named.tupleBlock agree base [] group).insertSource agree base _ source

theorem mergeAction (meets : Meets final w v u) (agree : Agree final left right) (base : Nat)
    (action : Form) :
    Meets final w (sheet.mergeAction left base action v)
      (sheet.mergeAction right base action u) := by
  cases action with
  | update keyword target clauses => exact meets.update agree base base keyword target clauses
  | insert keyword target columns source =>
    exact (meets.newline base).insert agree base keyword target columns source
  | raw elements => exact meets.run agree {} base elements
  | query | delete | merge | withQueries | create | grant => exact meets

theorem merge (meets : Meets final w v u) (agree : Agree final left right) (base : Nat)
    (keyword : Token) (target : List Element) (source : MergeSource) (branches : List MergeBranch) :
    Meets final w (sheet.merge left base keyword target source branches v)
      (sheet.merge right base keyword target source branches u) := by
  have named := (meets.token sheet base keyword).run agree {} (base + 6) target
  have sourced := ((named.newline base).token sheet base source.keyword).run agree
    { block := true } (base + 6) source.source
  exact (sourced.joinConditions agree base (base + 5) source.conditions).each _ _ 0 branches
    fun _ branch x there =>
    ((((start there).newline base).token sheet base branch.keyword).run agree {} (base + 2)
      branch.head).mergeAction agree (base + 2) branch.action

theorem inlineTuple (meets : Meets final w v u) (agree : Agree final left right) (indent : Nat)
    (group : Group) :
    Meets final w (Sheet.inlineTuple left indent group v)
      (Sheet.inlineTuple right indent group u) :=
  ((meets.space.punct group.opening).each _ _ 0 group.items fun _ item _ there =>
    (((start there).punct commaToken).space.ite _ (start there)).run agree {} indent item).punct
    group.closing

theorem definitionHead (meets : Meets final w v u) (agree : Agree final left right) (base : Nat)
    (head : List Element) :
    Meets final w (Sheet.definitionHead left base head v)
      (Sheet.definitionHead right base head u) := by
  refine meets.each _ _ 0 head fun _ element x there => ?_
  have here : Meets final x x x := start there
  split
  · split
    · exact here.inlineTuple agree base _
    · exact here.run agree {} base _
  · exact here.run agree {} base _

theorem definition (meets : Meets final w v u) (agree : Agree final left right) (base : Nat)
    (definition : Definition) :
    Meets final w (sheet.definition left base definition v)
      (sheet.definition right base definition u) := by
  have named := ((meets.definitionHead agree base definition.head).token sheet base
    definition.keyword).run agree {} base definition.modifiers
  unfold Sheet.definition
  simp only
  split
  · exact (((((named.newline base).punct definition.query.opening).newline (base + 2)).statement
      agree (base + 2) _).newline base).punct definition.query.closing
  · exact named.run agree {} base _

theorem withQueries (meets : Meets final w v u) (agree : Agree final left right) (base : Nat)
    (keyword : Token) (modifiers : List Element) (definitions : List Definition)
    (body : Statement) :
    Meets final w (sheet.withQueries left base keyword modifiers definitions body v)
      (sheet.withQueries right base keyword modifiers definitions body u) := by
  have broken : Meets final w { v with broken := v.broken || v.inline }
      { u with broken := u.broken || u.inline } :=
    meets.both fun x => Writer.Leads.refl.step (.breaks (x.broken || x.inline) x)
  have headed := (broken.token sheet base keyword).run agree {} base modifiers
  exact ((headed.each _ _ 0 definitions fun _ definition _ there =>
    ((((start there).punct commaToken).newline base).ite _ (start there)).definition agree base
      definition).newline base).statement agree base body

theorem columnRest (meets : Meets final w v u) (agree : Agree final left right) (base : Nat)
    (rest : List Element) :
    Meets final w (sheet.columnRest left base rest v) (sheet.columnRest right base rest u) := by
  unfold Sheet.columnRest
  split
  · split
    · exact (meets.typeWord _).run agree {} (base + 4) _
    · exact meets.run agree {} (base + 4) _
  · exact meets.run agree {} (base + 4) rest

theorem tableColumns (meets : Meets final w v u) (sheet : Sheet) (agree : Agree final left right)
    (base : Nat) (group : Group) :
    Meets final w (sheet.tableColumns left base group v)
      (sheet.tableColumns right base group u) := by
  refine (((meets.newline base).punct group.opening).each _ _ 0 group.items
    fun index item x there => ?_).newline base |>.punct group.closing
  refine Meets.beforeComma ?_ (index + 1 < group.items.length)
  have line : Meets final x (x.newline (base + 2)) (x.newline (base + 2)) :=
    (start there).newline (base + 2)
  split
  · split
    · exact ((line.token sheet (base + 2) _).padTo _).columnRest agree base _
    · exact line.run agree {} (base + 4) _
  · exact line.run agree {} (base + 4) item

theorem create (meets : Meets final w v u) (agree : Agree final left right) (base : Nat)
    (keyword : Token) (object : List Element) (columns : Option Group) (rest : CreateRest) :
    Meets final w (sheet.create left base keyword object columns rest v)
      (sheet.create right base keyword object columns rest u) := by
  have named := (meets.token sheet base keyword).run agree {} base object
  cases columns with
  | none =>
    cases rest with
    | nothing => exact named
    | query word body =>
      exact (((named.newline base).token sheet base word).newline base).statement agree base body
    | run elements => exact named.run agree {} base elements
  | some group =>
    have listed := (named.inlineTuple agree base group).ite
      (object.any (Element.isKeyword ["TABLE"]) = true)
      (named.tableColumns sheet agree base group)
    cases rest with
    | nothing => exact listed
    | query word body =>
      exact (((listed.newline base).token sheet base word).newline base).statement agree base body
    | run elements => exact listed.run agree {} base elements

theorem grant (meets : Meets final w v u) (agree : Agree final left right) (base : Nat)
    (keyword : Token) (privileges : List Element) (clauses : List (Branch Element)) :
    Meets final w (sheet.grant left base keyword privileges clauses v)
      (sheet.grant right base keyword privileges clauses u) :=
  ((meets.token sheet base keyword).run agree {} (base + 2) privileges).each _ _ 0 clauses
    fun _ branch _ there => (((start there).newline (base + 2)).token sheet (base + 2)
      branch.keyword).run agree {} (base + 4) branch.elements

theorem form (meets : Meets final w v u) (agree : Agree final left right) (base : Nat)
    (form : Form) :
    Meets final w (sheet.form left base form v) (sheet.form right base form u) := by
  cases form with
  | query clauses => exact meets.clauses agree base clauses
  | insert keyword target columns source =>
    exact meets.insert agree base keyword target columns source
  | update keyword target clauses => exact meets.update agree base (base + 3) keyword target clauses
  | delete keyword target clauses => exact meets.delete agree base keyword target clauses
  | merge keyword target source branches =>
    exact meets.merge agree base keyword target source branches
  | withQueries keyword modifiers definitions recursive body =>
    exact meets.withQueries agree base keyword modifiers definitions body
  | create keyword object columns rest =>
    exact meets.create agree base keyword object columns rest
  | grant keyword privileges clauses => exact meets.grant agree base keyword privileges clauses
  | raw elements => exact meets.run agree {} base elements

end Meets

namespace Sheet

variable {sheet : Sheet} {left right : Painter} {final w : Writer}

theorem meets_statement (agree : Agree final left right) (base : Nat) (body : Statement)
    (reached : w.Reached) :
    Meets final w (sheet.statement left base body w) (sheet.statement right base body w) :=
  (((Meets.start reached).each _ _ 0 body.leading fun _ comment _ there =>
    ((Meets.start there).comment base comment).newline base).form agree base body.form).each _ _ 0
    body.trailing fun _ comment _ there => (Meets.start there).comment base comment

theorem agree_blank : Agree final .blank .blank :=
  ⟨fun _ _ _ _ reached => .start reached, fun _ _ _ reached => .start reached⟩

theorem agree_painterWith (drawCase : Nat → Case Element → Writer → Writer)
    (same : ∀ height : Nat, ∀ case : Case Element, ∀ v : Writer, v.Reached →
      (sheet.caseExpression (sheet.painter height) case v).Ends final →
      drawCase height case v = sheet.caseExpression (sheet.painter height) case v)
    (height : Nat) : Agree final (sheet.painter height) (sheet.painterWith drawCase height) := by
  induction height with
  | zero => exact agree_blank
  | succ height below =>
    exact ⟨fun mode indent elements w reached =>
        meets_runFrom below (drawCase height) (same height) mode indent false elements reached,
      fun base body w reached => meets_statement below base body reached⟩

theorem agree_painter (final : Writer) (height : Nat) :
    Agree final (sheet.painter height) (sheet.painterWith
      (fun height => sheet.caseExpression (sheet.painter height)) height) :=
  agree_painterWith _ (fun _ _ _ _ _ => rfl) height

theorem leads_painter (height : Nat) (mode : RunMode) (indent : Nat) (elements : List Element)
    (w : Writer) (reached : w.Reached) :
    w.Leads ((sheet.painter height).run mode indent elements w) :=
  ((agree_painter w height).run mode indent elements w reached).leads

theorem leads_caseExpression (height : Nat) (case : Case Element) (w : Writer)
    (reached : w.Reached) : w.Leads (sheet.caseExpression (sheet.painter height) case w) :=
  (meets_case (agree_painter w height) case reached).leads

/-- The CASE expressions of a statement are only ever drawn in states that a writer can be in,
and what has been written with them by a writer that starts lines begins the text. -/
theorem renderWith_eq (drawCase : Nat → Case Element → Writer → Writer) (statement : Statement)
    (terminator : Option Token)
    (same : ∀ height : Nat, ∀ case : Case Element, ∀ w : Writer, w.Reached →
      (w.inline = false → (sheet.caseExpression (sheet.painter height) case w).chars <+:
        (sheet.render statement terminator).toList) →
      drawCase height case w = sheet.caseExpression (sheet.painter height) case w) :
    sheet.renderWith drawCase statement terminator = sheet.render statement terminator := by
  have begins : (sheet.finished statement).chars <+:
      (sheet.render statement terminator).toList := by
    cases terminator with
    | none =>
      have whole : (sheet.render statement none).toList = (sheet.finished statement).chars :=
        String.toList_ofList
      simp only [whole, List.prefix_rfl]
    | some token =>
      rw [show sheet.render statement (some token) =
        ((sheet.finished statement).terminate token.text).text from rfl, Writer.text,
        String.toList_ofList]
      exact (Writer.leads_terminate token.text _).chars
  have agree : Agree (sheet.finished statement) (sheet.painter (statement.height + 1))
      (sheet.painterWith drawCase (statement.height + 1)) := by
    refine agree_painterWith drawCase (fun height case w reached ends => ?_) _
    refine same height case w reached fun lines => ?_
    have drawn : w.Leads (sheet.caseExpression (sheet.painter height) case w) :=
      leads_caseExpression height case w reached
    have onward := ends.resolve_left (by rw [drawn.inline, lines]; decide)
    exact onward.chars.trans begins
  have drawn := (agree.statement 0 statement {} (Writer.reached_fresh false)).same (.inr .refl)
  cases terminator with
  | none => exact congrArg Writer.text drawn
  | some token => exact congrArg (fun w => (w.terminate token.text).text) drawn

end Sheet

end SqlLayout.Layout
