import Descent.Rule.Plan

namespace Descent

/-- What applying a rule gives: a step and the budget behind it. None stands for rules that nest
deeper than the room there was. -/
abbrev Applied := Option (Step × Budget)

/-- Follows a plan; `apply` applies the rules that it calls for. -/
def Plan.run (apply : Rule → Cursor → Budget → Applied) : Plan → Budget → Applied
  | .done s, b => some (s, b)
  | .observe run, b => some (run b, b)
  | .apply r c next, b =>
    match apply r c b with
    | some (.ok o, b) => (next o).run apply b
    | some (.error f, b) => some (.error f, b)
    | none => none

namespace Budget

/-- Ends an application: a failure is recorded, and the depth released. -/
def close (b : Budget) : Step → Budget
  | .ok (.failure f) => (b.record f).leave
  | _ => b.leave

end Budget

/-- Applies a rule, with room for `room` applications one inside the other. Every application is
charged, also that of a rule by a rule. -/
def Rule.apply (s : Store) : Nat → Rule → Cursor → Budget → Applied
  | 0, _, _, _ => none
  | room+1, r, c, b =>
    match b.enter c.offset with
    | (.error f, b) => some (.error f, b)
    | (.ok (), b) =>
      ((r.plan s c).run (Rule.apply s room) b).map fun (step, b) => (step, b.close step)

theorem Plan.run_mono {apply apply' : Rule → Cursor → Budget → Applied}
    (h : ∀ r c b x, apply r c b = some x → apply' r c b = some x) (p : Plan) (b : Budget)
    {x : Step × Budget} (hx : p.run apply b = some x) : p.run apply' b = some x := by
  induction p generalizing b with
  | done => exact hx
  | observe => exact hx
  | apply r c next ih =>
    unfold Plan.run at hx ⊢
    cases ha : apply r c b with
    | none => simp [ha] at hx
    | some y =>
      rw [ha] at hx
      rw [h r c b y ha]
      obtain ⟨step, b'⟩ := y
      cases step with
      | error => exact hx
      | ok o => exact ih o b' hx

theorem Rule.apply_succ {s : Store} {room : Nat} {r : Rule} {c : Cursor} {b : Budget}
    {x : Step × Budget} (h : r.apply s room c b = some x) : r.apply s (room+1) c b = some x := by
  induction room generalizing r c b x with
  | zero => simp [Rule.apply] at h
  | succ room ih =>
    rw [Rule.apply] at h ⊢
    split at h
    · exact h
    · obtain ⟨y, hy, rfl⟩ := Option.map_eq_some_iff.1 h
      rw [Plan.run_mono (fun _ _ _ _ => ih) _ _ hy]
      rfl

theorem Rule.apply_mono {s : Store} {room room' : Nat} (hr : room ≤ room') {r : Rule} {c : Cursor}
    {b : Budget} {x : Step × Budget} (h : r.apply s room c b = some x) :
    r.apply s room' c b = some x := by
  induction hr with
  | refl => exact h
  | step _ ih => exact Rule.apply_succ ih

end Descent
