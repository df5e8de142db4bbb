import SqlLayout.Fault
import SqlLayout.Notice

/-! Results that come with notices. A fault ends the work; the notices given before
it stay. -/
namespace SqlLayout

structure Report (α : Type) where
  notices : List Notice
  outcome : Except Fault α

namespace Report

def pure {α : Type} (value : α) : Report α :=
  ⟨[], .ok value⟩

def fault {α : Type} (fault : Fault) : Report α :=
  ⟨[], .error fault⟩

def noted {α : Type} (notice : Notice) (value : α) : Report α :=
  ⟨[notice], .ok value⟩

def bind {α β : Type} (report : Report α) (next : α → Report β) : Report β :=
  match report.outcome with
  | .error fault => ⟨report.notices, .error fault⟩
  | .ok value => ⟨report.notices ++ (next value).notices, (next value).outcome⟩

instance : Monad Report where
  pure := Report.pure
  bind := Report.bind

@[simp] theorem pure_outcome {α : Type} (value : α) :
    (Pure.pure value : Report α).outcome = .ok value := rfl

@[simp] theorem pure_notices {α : Type} (value : α) :
    (Pure.pure value : Report α).notices = [] := rfl

@[simp] theorem pure_bind {α β : Type} (value : α) (next : α → Report β) :
    (Pure.pure value : Report α) >>= next = next value := by
  show Report.bind (Report.pure value) next = next value
  simp [Report.bind, Report.pure]

@[simp] theorem fault_bind {α β : Type} (cause : Fault) (next : α → Report β) :
    (Report.fault cause : Report α) >>= next = Report.fault cause := rfl

theorem bind_assoc {α β γ : Type} (report : Report α) (next : α → Report β)
    (last : β → Report γ) :
    report >>= next >>= last = report >>= fun value => next value >>= last := by
  obtain ⟨notices, outcome⟩ := report
  cases outcome with
  | error cause => rfl
  | ok value =>
    show Report.bind (Report.bind ⟨notices, .ok value⟩ next) last =
      Report.bind ⟨notices, .ok value⟩ fun value => Report.bind (next value) last
    simp only [Report.bind]
    split <;> simp

end Report

end SqlLayout
