import SqlLayout.Proofs.Displacement
import SqlLayout.Tree.Walk

/-! What becomes of the tokens of a statement when its tree is built. Each step of building
turns one trace into another one that carries its tokens: some may be left out, the others
keep their order up to line comments that go behind commas. Nothing is left out but the
rest of an INSERT behind its values, where its first word asks for a run that has been
cut, a statement in the head of a named query, and a comma behind the last named query.
`Build.Yields` says the same of a step that may fail, with the notices it makes left
aside. -/
namespace SqlLayout.Tree

open SqlLayout.Layout

/-- In the head of a named query, a statement in a group is not drawn. -/
def Element.fitsHead : Element → Bool
  | .group inner => inner.body.isNone
  | _ => true

def Definition.keepsHead (definition : Definition) : Bool :=
  definition.head.all Element.fitsHead

def keepsDefinitions (definitions : List Definition) (commas : List Token) : Bool :=
  definitions.all Definition.keepsHead && (commas.isEmpty || commas.length < definitions.length)

namespace Form

def isWith : Form → Bool
  | .withQueries .. => true
  | _ => false

def isInsert : Form → Bool
  | .insert .. => true
  | _ => false

def keepsTail : Form → Bool
  | .insert _ _ _ (.values _ _ (some tail)) =>
    tail.elements.isEmpty || !dropsRun tail.keyword.contents
  | _ => true

def keepsQueries : Form → Bool
  | .withQueries _ _ definitions commas _ => keepsDefinitions definitions commas
  | _ => true

def keepsAll (form : Form) : Bool :=
  form.keepsTail && form.keepsQueries

theorem keepsTail_of_not_insert (form : Form) (other : form.isInsert = false) :
    form.keepsTail = true := by
  cases form <;> first | rfl | simp [isInsert] at other

theorem keepsQueries_of_not_with (form : Form) (other : form.isWith = false) :
    form.keepsQueries = true := by
  cases form <;> first | rfl | simp [isWith] at other

theorem keepsAll_of_not_with (form : Form) (other : form.isWith = false) :
    form.keepsAll = form.keepsTail := by
  rw [keepsAll, form.keepsQueries_of_not_with other, Bool.and_true]

theorem keepsAll_of_not_insert (form : Form) (other : form.isInsert = false) :
    form.keepsAll = form.keepsQueries := by
  rw [keepsAll, form.keepsTail_of_not_insert other, Bool.true_and]

end Form

namespace Trace

def KeepsAll (trace : Trace) : Prop :=
  ∀ form ∈ trace.forms, form.keepsAll = true

theorem keepsAll_append (first second : Trace) :
    (first ++ second).KeepsAll ↔ first.KeepsAll ∧ second.KeepsAll := by
  simp only [KeepsAll, forms_append, List.mem_append, or_imp, forall_and]

end Trace

/-- Tokens are kept in their order, though perhaps not all of them. -/
structure Keeps (source shown : Trace) : Prop where
  order : ∃ kept, kept.Sublist source.faces ∧
    Displaced Mark.Mobile Mark.IsComma kept shown.faces
  members : ∀ mark ∈ shown.marks, mark = commaMark ∨ mark ∈ source.marks

/-- Moreover, none is lost exactly if all forms keep what they are made of, and never all. -/
structure Carries (source shown : Trace) : Prop extends Keeps source shown where
  forms : shown.KeepsAll → ∀ form ∈ source.forms, form ∈ shown.forms
  whole : source.KeepsAll → (shown.marks.length = source.marks.length ↔ shown.KeepsAll)
  empty : shown.marks = [] → source.marks = []

/-- A part of a form: it carries its tokens if the form keeps it, and loses some if not. -/
structure CarriesIf (kept : Prop) (source shown : Trace) : Prop extends Keeps source shown where
  carries : kept → Carries source shown
  loses : ¬kept → shown.marks.length < source.marks.length

namespace Keeps

variable {first second third fourth : Trace}

theorem of_moves (moves : Moves first second) : Keeps first second where
  order := ⟨first.faces, List.Sublist.refl _, moves.order⟩
  members := moves.members

theorem length_le (keeps : Keeps first second) : second.marks.length ≤ first.marks.length := by
  obtain ⟨kept, sub, displaced⟩ := keeps.order
  have bound := sub.length_le
  have same := displaced.length_eq
  rw [Trace.length_faces] at bound same
  omega

theorem trans (before : Keeps first second) (after : Keeps second third) : Keeps first third where
  order := by
    obtain ⟨kept, sub, displaced⟩ := before.order
    obtain ⟨middle, inside, moved⟩ := after.order
    obtain ⟨origin, part, front⟩ := displaced.exists_sublist middle inside
    exact ⟨origin, part.trans sub, .trans front moved⟩
  members := by
    intro mark member
    rcases after.members mark member with comma | inside
    · exact .inl comma
    · exact before.members mark inside

theorem append (front : Keeps first second) (rest : Keeps third fourth) :
    Keeps (first ++ third) (second ++ fourth) where
  order := by
    obtain ⟨kept, sub, displaced⟩ := front.order
    obtain ⟨more, inside, moved⟩ := rest.order
    rw [Trace.faces_append, Trace.faces_append]
    exact ⟨kept ++ more, sub.append inside, displaced.append moved⟩
  members := by
    intro mark member
    rw [Trace.marks_append, List.mem_append] at member ⊢
    rcases member with inFront | inRest
    · rcases front.members mark inFront with comma | inside
      · exact .inl comma
      · exact .inr (.inl inside)
    · rcases rest.members mark inRest with comma | inside
      · exact .inl comma
      · exact .inr (.inr inside)

theorem drop (keeps : Keeps first (second ++ third)) (hidden : Trace)
    (nothing : hidden.marks = []) : Keeps first (second ++ hidden) where
  order := by
    obtain ⟨kept, sub, displaced⟩ := keeps.order
    rw [Trace.faces_append] at displaced
    obtain ⟨origin, inside, moved⟩ :=
      displaced.exists_sublist second.faces (List.sublist_append_left _ _)
    refine ⟨origin, inside.trans sub, ?_⟩
    simpa [Trace.faces, nothing] using moved
  members := by
    intro mark member
    rw [Trace.marks_append, nothing, List.append_nil] at member
    exact keeps.members mark (by simp [member])

end Keeps

namespace Carries

variable {first second third fourth : Trace}

theorem of_moves (moves : Moves first second) : Carries first second where
  toKeeps := .of_moves moves
  forms := by
    intro _ form member
    rw [moves.forms]
    exact member
  whole := by
    intro all
    unfold Trace.KeepsAll at all ⊢
    rw [moves.forms]
    exact iff_of_true moves.length_eq all
  empty := by
    rw [← List.length_eq_zero_iff, ← List.length_eq_zero_iff, moves.length_eq]
    exact id

theorem refl (trace : Trace) : Carries trace trace :=
  of_moves (.refl trace)

theorem trans (before : Carries first second) (after : Carries second third) :
    Carries first third where
  toKeeps := before.toKeeps.trans after.toKeeps
  forms := by
    intro all form member
    have middle : second.KeepsAll := fun other inside => all other (after.forms all other inside)
    exact after.forms all form (before.forms middle form member)
  whole := by
    intro all
    have shorter := before.length_le
    have shorterStill := after.length_le
    have front := before.whole all
    constructor
    · intro same
      have kept := front.1 (by omega)
      exact (after.whole kept).1 (by omega)
    · intro kept
      have keptBefore : second.KeepsAll := fun form inside =>
        kept form (after.forms kept form inside)
      rw [(after.whole keptBefore).2 kept, front.2 keptBefore]
  empty := fun nothing => before.empty (after.empty nothing)

theorem append (front : Carries first second) (rest : Carries third fourth) :
    Carries (first ++ third) (second ++ fourth) where
  toKeeps := front.toKeeps.append rest.toKeeps
  forms := by
    intro all form member
    obtain ⟨allFront, allRest⟩ := (Trace.keepsAll_append _ _).1 all
    rw [Trace.forms_append, List.mem_append] at member ⊢
    rcases member with inFront | inRest
    · exact .inl (front.forms allFront form inFront)
    · exact .inr (rest.forms allRest form inRest)
  whole := by
    intro all
    obtain ⟨allFront, allRest⟩ := (Trace.keepsAll_append _ _).1 all
    have shorter := front.length_le
    have shorterRest := rest.length_le
    rw [Trace.keepsAll_append, ← front.whole allFront, ← rest.whole allRest, Trace.marks_append,
      Trace.marks_append, List.length_append, List.length_append]
    omega
  empty := by
    rw [Trace.marks_append, Trace.marks_append, List.append_eq_nil_iff, List.append_eq_nil_iff]
    exact fun nothing => ⟨front.empty nothing.1, rest.empty nothing.2⟩

theorem form (carries : Carries first second) (form : Form) (keeps : form.keepsAll = true) :
    Carries first (.ofForm form ++ second) where
  order := carries.order
  members := carries.members
  forms := by
    intro all other member
    have rest := ((Trace.keepsAll_append _ _).1 all).2
    exact List.mem_append_right _ (carries.forms rest other member)
  whole := by
    intro all
    have same := carries.whole all
    rw [Trace.keepsAll_append, ← same]
    have alone : (Trace.ofForm form).KeepsAll := by
      intro other member
      rw [Trace.forms_ofForm, List.mem_singleton] at member
      rw [member]
      exact keeps
    simp [alone]
  empty := by
    rw [Trace.marks_append, Trace.marks_ofForm, List.nil_append]
    exact carries.empty

theorem lossy (keeps : Keeps first second) (short : second.marks.length < first.marks.length)
    (form : Form) (loses : form.keepsAll = false) (filled : second.marks ≠ []) :
    Carries first (.ofForm form ++ second) where
  order := keeps.order
  members := keeps.members
  forms := by
    intro all
    have kept := all form (by simp)
    simp [loses] at kept
  whole := by
    intro _
    refine iff_of_false ?_ fun all => ?_
    · rw [Trace.marks_append, Trace.marks_ofForm, List.nil_append]
      omega
    · have kept := all form (by simp)
      simp [loses] at kept
  empty := by
    rw [Trace.marks_append, Trace.marks_ofForm, List.nil_append]
    exact fun nothing => absurd nothing filled

theorem drop (moves : Moves first (second ++ third)) (form : Form)
    (loses : form.keepsAll = false) (tail : third.marks ≠ []) (filled : second.marks ≠ []) :
    Carries first (.ofForm form ++ (second ++ third.hidden)) := by
  refine lossy ((Keeps.of_moves moves).drop third.hidden rfl) ?_ form loses ?_
  · have same := moves.length_eq
    have positive := List.length_pos_iff.2 tail
    simp only [Trace.marks_append, Trace.marks_hidden, List.length_append, List.length_nil] at same ⊢
    omega
  · rw [Trace.marks_append, Ne, List.append_eq_nil_iff]
    exact fun empty => filled empty.1

end Carries

namespace CarriesIf

variable {first second third fourth : Trace} {kept more : Prop}

theorem of_carries (carries : Carries first second) : CarriesIf True first second where
  toKeeps := carries.toKeeps
  carries := fun _ => carries
  loses := fun never => absurd trivial never

theorem trans (before : CarriesIf kept first second) (after : CarriesIf more second third) :
    CarriesIf (kept ∧ more) first third where
  toKeeps := before.toKeeps.trans after.toKeeps
  carries := fun both => (before.carries both.1).trans (after.carries both.2)
  loses := by
    intro lost
    have shorter := before.length_le
    have shorterStill := after.length_le
    by_cases whole : kept
    · have short := after.loses fun rest => lost ⟨whole, rest⟩
      omega
    · have short := before.loses whole
      omega

theorem append (front : CarriesIf kept first second) (rest : CarriesIf more third fourth) :
    CarriesIf (kept ∧ more) (first ++ third) (second ++ fourth) where
  toKeeps := front.toKeeps.append rest.toKeeps
  carries := fun both => (front.carries both.1).append (rest.carries both.2)
  loses := by
    intro lost
    have shorter := front.length_le
    have shorterRest := rest.length_le
    simp only [Trace.marks_append, List.length_append]
    by_cases whole : kept
    · have short := rest.loses fun other => lost ⟨whole, other⟩
      omega
    · have short := front.loses whole
      omega

theorem behind (front : Carries first second) (rest : CarriesIf kept third fourth) :
    CarriesIf kept (first ++ third) (second ++ fourth) := by
  simpa using (of_carries front).append rest

theorem lost (keeps : Keeps first second) (short : second.marks.length < first.marks.length) :
    CarriesIf False first second where
  toKeeps := keeps
  carries := False.elim
  loses := fun _ => short

theorem form (part : CarriesIf kept first second) (form : Form)
    (keeps : form.keepsAll = true ↔ kept) (filled : second.marks ≠ []) :
    Carries first (.ofForm form ++ second) := by
  by_cases whole : kept
  · exact (part.carries whole).form form (keeps.2 whole)
  · refine .lossy part.toKeeps (part.loses whole) form ?_ filled
    exact Bool.eq_false_iff.2 fun all => whole (keeps.1 all)

end CarriesIf

def Build.Yields {α : Type} (build : Build α) (property : α → Prop) : Prop :=
  ∀ before value after, build.run before = (.ok value, after) → property value

namespace Build.Yields

variable {α β : Type} {first : α → Prop} {second : β → Prop}

theorem pure (value : α) (holds : first value) : Yields (Pure.pure value) first := by
  intro before found after given
  have same : (Except.ok value, before) = (Except.ok found, after) := given
  simp only [Prod.mk.injEq, Except.ok.injEq] at same
  rw [← same.1]
  exact holds

theorem bind {build : Build α} {next : α → Build β} (yields : Yields build first)
    (onward : ∀ value, first value → Yields (next value) second) :
    Yields (build >>= next) second := by
  intro before found after given
  have unfolded : (build >>= next).run before =
      ExceptT.bindCont next (build.run before).1 (build.run before).2 := rfl
  rw [unfolded] at given
  cases step : build.run before with
  | mk outcome middle =>
    rw [step] at given
    cases outcome with
    | error misfit =>
      have stopped : (Except.error misfit, middle) = (Except.ok found, after) := given
      cases stopped
    | ok value => exact onward value (yields before value middle step) middle found after given

theorem mono {build : Build α} {other : α → Prop} (yields : Yields build first)
    (weaker : ∀ value, first value → other value) : Yields build other := by
  intro before value after given
  exact weaker value (yields before value after given)

theorem both {build : Build α} {other : α → Prop} (yields : Yields build first)
    (again : Yields build other) : Yields build fun value => first value ∧ other value :=
  fun before value after given =>
    ⟨yields before value after given, again before value after given⟩

theorem any (build : Build α) : Yields build fun _ => True := by
  intro before value after given
  trivial

theorem throw (misfit : Misfit) : Yields (MonadExcept.throw misfit : Build α) first := by
  intro before value after given
  have stopped : (Except.error misfit, before) = (Except.ok value, after) := given
  cases stopped

theorem lift (outcome : Except Misfit α) (holds : ∀ value, outcome = .ok value → first value) :
    Yields (liftM outcome : Build α) first := by
  intro before value after given
  cases outcome with
  | error misfit =>
    have stopped : (Except.error misfit, before) = (Except.ok value, after) := given
    cases stopped
  | ok found =>
    have same : (Except.ok found, before) = (Except.ok value, after) := given
    simp only [Prod.mk.injEq, Except.ok.injEq] at same
    exact holds value (by rw [same.1])

end Build.Yields

end SqlLayout.Tree
