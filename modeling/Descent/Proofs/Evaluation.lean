import Descent.Proofs.Reports
import Descent.Proofs.Room

namespace Descent

namespace Rule

/-- Evaluated at `c` without limits, the rule comes to `step`, and `es` is what happens on the
way. -/
def Evaluates (s : Store) (r : Rule) (c : Cursor) (step : Step) (es : List Event) : Prop :=
  ∃ room, r.trace s room c = ⟨es, some step⟩

variable {s : Store} {r : Rule} {c : Cursor} {step : Step} {es : List Event}

theorem evaluates_of_trace {room : Nat} (h : (r.trace s room c).step = some step) :
    r.Evaluates s c step (r.trace s room c).events := ⟨room, Trace.ext rfl h⟩

theorem Evaluates.trace {room : Nat} (h : r.trace s room c = ⟨es, some step⟩) {room' : Nat}
    (hr : room ≤ room') : r.trace s room' c = ⟨es, some step⟩ := by
  rw [← h]
  exact (trace_grows s hr r c).2 step (by rw [h])

theorem Evaluates.unique {step' : Step} {es' : List Event} (h : r.Evaluates s c step es)
    (h' : r.Evaluates s c step' es') : step' = step ∧ es' = es := by
  obtain ⟨room, hroom⟩ := h
  obtain ⟨room', hroom'⟩ := h'
  have heq := Evaluates.trace hroom (Nat.le_max_left room room')
  rw [Evaluates.trace hroom' (Nat.le_max_right room room')] at heq
  obtain ⟨hes, hstep⟩ := Trace.mk.inj heq
  exact ⟨Option.some.inj hstep, hes⟩

theorem Evaluates.exists_succ {step : Step} (h : r.Evaluates s c step es) :
    ∃ room, r.trace s (room+1) c = ⟨es, some step⟩ := by
  obtain ⟨room, hroom⟩ := h
  exact ⟨room, Evaluates.trace hroom (Nat.le_succ room)⟩

/-- A rule that applies no other comes to what it says itself. -/
theorem trace_done (h : r.plan s c = .done step) (room : Nat) :
    r.trace s (room+1) c = ⟨[.opened r c, .closed r c step], some step⟩ := by
  rw [Rule.trace, h]
  rfl

theorem Composed.run_evaluates (hs : s.Composed) (hr : r.Composed) {text : List Char} {b : Budget} :
    r.run s text .unbounded = some (step, b) ↔
      ∃ es, r.Evaluates s (.start text) step es ∧ b = (Budget.fresh .unbounded).after es := by
  rw [hr.run_eq_some_iff hs]
  constructor
  · rintro ⟨room, h⟩
    rw [hr.apply_eq_settle hs, Trace.settle_unbounded _ rfl] at h
    obtain ⟨x, hx, hxs⟩ := Option.map_eq_some_iff.1 h
    obtain ⟨rfl, rfl⟩ := Prod.mk.inj hxs
    exact ⟨_, evaluates_of_trace hx, rfl⟩
  · rintro ⟨es, ⟨room, h⟩, rfl⟩
    refine ⟨room, ?_⟩
    rw [hr.apply_eq_settle hs, Trace.settle_unbounded _ rfl, h]
    rfl

theorem Composed.run_eq_none (hs : s.Composed) (hr : r.Composed) {text : List Char}
    (h : ∀ step es, ¬ r.Evaluates s (.start text) step es) : r.run s text .unbounded = none := by
  rw [Option.eq_none_iff_forall_ne_some]
  rintro ⟨step, b⟩ hrun
  obtain ⟨es, hes, _⟩ := (hr.run_evaluates hs).1 hrun
  exact h step es hes

theorem parse_none {text : String} {l : Limits} (h : r.run s text.toList l = none) :
    r.parseWith s text l = none ∧ r.parseAllWith s text l = none := by
  rw [parseWith, parseAllWith, h]
  exact ⟨rfl, rfl⟩

section

variable (hs : s.Composed) (hr : r.Composed) {text : String}
include hs hr

theorem Composed.parse_of_fault {f : Fault} (h : r.Evaluates s (.start text.toList) (.error f) es) :
    r.parseWith s text .unbounded = some (.error (.ofFault text.toList f)) ∧
    r.parseAllWith s text .unbounded = some (.error (.ofFault text.toList f)) :=
  parse_fault ((hr.run_evaluates hs).2 ⟨es, h, rfl⟩)

theorem Composed.parse_of_failure {f : Failure}
    (h : r.Evaluates s (.start text.toList) (.ok (.failure f)) es) : r.parseWith s text .unbounded =
      some (.error (.ofFailure text.toList (deeper f (Failure.furthest (Event.failures es))))) ∧
    r.parseAllWith s text .unbounded =
      some (.error (.ofFailure text.toList (deeper f (Failure.furthest (Event.failures es))))) := by
  have hparse := parse_failure ((hr.run_evaluates hs).2 ⟨es, h, rfl⟩)
  rwa [Budget.after_fresh_furthest] at hparse

theorem Composed.parse_of_success {m : Match}
    (h : r.Evaluates s (.start text.toList) (.ok (.success m)) es) :
    r.parseWith s text .unbounded = some (.ok (m.value, m.rest.rest)) ∧
    r.parseAllWith s text .unbounded =
      some (complete text.toList m (Failure.furthest (Event.failures es))) := by
  have hparse := parse_success ((hr.run_evaluates hs).2 ⟨es, h, rfl⟩)
  rwa [Budget.after_fresh_furthest] at hparse

end

end Rule

end Descent
