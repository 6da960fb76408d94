import Descent.Proofs.Account
import Descent.Proofs.Parts
import Descent.Rule.Parse

namespace Descent.Rule

variable {s : Store} {r : Rule}

/-- What an application leaves on a budget without limits, it adds to any budget. -/
theorem Composed.apply_fresh (hs : s.Composed) (hr : r.Composed) {room : Nat} {c : Cursor}
    {b b' : Budget} {step : Step} (h : r.apply s room c b = some (step, b')) (hn : ¬ step.Refused) :
    ∃ d, r.apply s room c (.fresh .unbounded) = some (step, d) ∧ b'.steps = b.steps+d.steps ∧
      b'.furthest = Failure.join b.furthest d.furthest := by
  obtain ⟨hstep, rfl⟩ := hr.apply_not_refused hs h hn
  refine ⟨(Budget.fresh .unbounded).after (r.trace s room c).events, ?_, ?_, ?_⟩
  · rw [hr.apply_eq_settle hs, Trace.settle_unbounded _ rfl, hstep]
    rfl
  · have hlen := Event.length_applications b.depth 0 (r.trace s room c).events
    change b.steps+(Event.applications b.depth _).length =
      b.steps+(0+(Event.applications 0 _).length)
    rw [hlen, Nat.zero_add]
  · rw [Budget.after_fresh_furthest]
    rfl

/-- Two applications of a composed rule at one cursor, on whatever budgets, come to the same unless
a limit stops one of them. -/
theorem history_independent (hs : s.Composed) (hr : r.Composed) {room : Nat} {c : Cursor}
    {b b' : Budget} {step : Step} (h : r.apply s room c b = some (step, b')) (hn : ¬ step.Refused)
    (d : Budget) :
    (∃ step' d', r.apply s room c d = some (step', d')) ∧
    ∀ room' step' d', r.apply s room' c d = some (step', d') → ¬ step'.Refused →
      step' = step ∧ ∃ e, r.apply s room c (.fresh .unbounded) = some (step, e) ∧
        b'.steps = b.steps+e.steps ∧ d'.steps = d.steps+e.steps ∧
        b'.furthest = Failure.join b.furthest e.furthest ∧
        d'.furthest = Failure.join d.furthest e.furthest := by
  constructor
  · have hstep := (hr.apply_not_refused hs h hn).1
    rw [hr.apply_eq_settle hs]
    rcases (r.trace s room c).settle_cases d with ⟨_, hset⟩ | ⟨_, _, f, _, _, _, d', hset⟩
    · rw [hset, hstep]
      exact ⟨step, _, rfl⟩
    · exact ⟨.error f, d', hset⟩
  · intro room' step' d' h' hn'
    obtain ⟨e, he, hsteps, hfurthest⟩ := hr.apply_fresh hs h hn
    obtain ⟨e', he', hsteps', hfurthest'⟩ := hr.apply_fresh hs h' hn'
    -- More room changes neither application, so both are the same one.
    have hmax := apply_mono (Nat.le_max_left room room') he
    rw [apply_mono (Nat.le_max_right room room') he'] at hmax
    obtain ⟨rfl, rfl⟩ := Prod.mk.inj (Option.some.inj hmax)
    exact ⟨rfl, e', he, hsteps, hsteps', hfurthest, hfurthest'⟩

/-- A choice that fails on a fresh budget and on one with a history. -/
theorem history_independent_choice :
    ∃ e, apply .empty 3 (.choice [.literal "ab", .label (.literal "z") "zed"]) (.start ['a', 'c'])
        (.fresh .unbounded) = some (.ok (.failure ⟨0, [.literal "ab", .label "zed"]⟩), e) ∧
      4 = 0+e.steps ∧ 11 = 7+e.steps ∧
      some ⟨0, [.literal "ab", .literal "z", .label "zed"]⟩ = Failure.join none e.furthest ∧
      some ⟨0, [.endOfInput, .literal "ab", .literal "z", .label "zed"]⟩ =
        Failure.join (some ⟨0, [.endOfInput]⟩) e.furthest := by
  have h : apply .empty 3 (.choice [.literal "ab", .label (.literal "z") "zed"]) (.start ['a', 'c'])
      (.fresh .standard) = some (.ok (.failure ⟨0, [.literal "ab", .label "zed"]⟩),
        ⟨.standard, 0, 4, some ⟨0, [.literal "ab", .literal "z", .label "zed"]⟩⟩) := rfl
  have h' :
      apply .empty 3 (.choice [.literal "ab", .label (.literal "z") "zed"]) (.start ['a', 'c'])
      ⟨⟨some 9, some 20⟩, 5, 7, some ⟨0, [.endOfInput]⟩⟩ =
      some (.ok (.failure ⟨0, [.literal "ab", .label "zed"]⟩), ⟨⟨some 9, some 20⟩, 5, 11,
        some ⟨0, [.endOfInput, .literal "ab", .literal "z", .label "zed"]⟩⟩) := rfl
  exact ((history_independent (by decide) (by decide) h (Step.not_refused_ok _) _).2 3 _ _ h'
    (Step.not_refused_ok _)).2

end Descent.Rule
