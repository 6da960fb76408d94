import Descent.Proofs.Evaluation
import Descent.Proofs.Limits
import Descent.Proofs.Relink

namespace Descent

/-- Each application that begins is deeper than those around it, and room bounds how many these
are. -/
theorem Plan.depth_le {apply : Rule → Cursor → Trace} {room : Nat} (hl : ∀ r c, (apply r c).Level)
    (h : ∀ r c depth, ∀ a ∈ Event.applications depth (apply r c).events, a.depth ≤ depth+room)
    (p : Plan) (depth : Nat) :
    ∀ a ∈ Event.applications depth (p.trace apply).events, a.depth ≤ depth+room := by
  induction p with
  | done | observe => exact fun a ha => absurd ha List.not_mem_nil
  | apply r c next ih =>
    intro a ha
    rw [Plan.trace] at ha
    cases ht : (apply r c).step with
    | none =>
      rw [Trace.andThen_none ht] at ha
      exact h r c depth a ha
    | some step =>
      cases step with
      | error f =>
        rw [Trace.andThen_error ht] at ha
        exact h r c depth a ha
      | ok o =>
        have hlevel := hl r c (by rw [ht]; rfl)
        rw [Trace.andThen_ok ht, Event.applications_append, hlevel] at ha
        rcases List.mem_append.1 ha with ha | ha
        · exact h r c depth a ha
        · exact ih o a ha

theorem Plan.trace_isSome {apply : Rule → Cursor → Trace} {rules : List Rule} {p : Plan}
    {es : List Event} (h : ∀ r ∈ rules, ∀ c, (apply r c).step.isSome)
    (hp : p.Meets (among rules) (fun _ _ => True) es) :
    (p.trace apply).step.isSome := by
  induction p generalizing es with
  | done => rfl
  | observe => exact hp.elim
  | apply r c next ih =>
    obtain ⟨hr, _, hok⟩ := hp
    obtain ⟨step, hstep⟩ := Option.isSome_iff_exists.1 (h r hr c)
    rw [Plan.trace]
    cases step with
    | error f =>
      rw [Trace.andThen_error hstep]
      exact h r hr c
    | ok o =>
      rw [Trace.andThen_ok hstep]
      exact ih o (hok [] o trivial)

namespace Rule

mutual

/-- How deep rules stand one inside the other, the rule itself included. -/
def height : Rule → Nat
  | .choice rs => heightList rs+1
  | .sequence rs => heightList rs+1
  | .repeated r => r.height+1
  | .separated r d _ => max r.height d.height+1
  | .enclosed l r t => max l.height (max r.height t.height)+1
  | .pair a b d => max a.height (max b.height d.height)+1
  | .mapped r _ => r.height+1
  | .discard r => r.height+1
  | .optional r => r.height+1
  | .label r _ => r.height+1
  | .registered _ r => r.height+1
  | .adapt r _ => r.height+1
  | _ => 1

def heightList : List Rule → Nat
  | [] => 0
  | r :: rs => max r.height (heightList rs)

end

theorem height_le_heightList {q : Rule} {rs : List Rule} (h : q ∈ rs) :
    q.height ≤ heightList rs := by
  induction rs with
  | nil => cases h
  | cons p rs ih =>
    rw [heightList]
    rcases List.mem_cons.1 h with rfl | h
    · exact Nat.le_max_left _ _
    · exact Nat.le_trans (ih h) (Nat.le_max_right _ _)

theorem height_lt_of_child {r q : Rule} (h : q ∈ r.children) : q.height < r.height := by
  have heq : r.height = heightList r.children+1 := by
    cases r <;> simp [height, heightList, children]
  have := height_le_heightList h
  omega

variable {s : Store} {r : Rule} {c : Cursor}

theorem depth_le (s : Store) (room : Nat) (r : Rule) (c : Cursor) (depth : Nat) :
    ∀ a ∈ Event.applications depth (r.trace s room c).events, a.depth ≤ depth+room := by
  induction room generalizing r c depth with
  | zero => exact fun a ha => absurd ha List.not_mem_nil
  | succ room ih =>
    intro a ha
    rw [trace, Trace.wrap, Event.applications] at ha
    rcases List.mem_cons.1 ha with rfl | ha
    · exact Nat.add_le_add_left (Nat.le_add_left 1 room) depth
    · have hplan := Plan.depth_le (trace_level s room) ih (r.plan s c) (depth+1)
      rw [Event.applications_append] at ha
      rcases List.mem_append.1 ha with ha | ha
      · have := hplan a ha
        omega
      · cases ht : ((r.plan s c).trace (Rule.trace s room)).step with
        | none =>
          rw [ht] at ha
          cases ha
        | some step =>
          rw [ht] at ha
          cases ha

theorem callees_eq_children (h : r.isLate = false) (s : Store) : r.callees s = r.children := by
  cases r <;> first | rfl | cases h

/-- A rule that looks up no others is over in as much room as it is high. -/
theorem Composed.trace_isSome_of_height (hr : r.Composed)
    (hlate : ∀ q ∈ r.parts, q.isLate = false) {room : Nat} (h : r.height ≤ room) (c : Cursor) :
    (r.trace s room c).step.isSome := by
  induction room generalizing r c with
  | zero =>
    exfalso
    cases r <;> simp [height] at h
  | succ room ih =>
    have hcallees (q : Rule) (hq : q ∈ r.callees s) (d : Cursor) :
        (q.trace s room d).step.isSome := by
      rw [callees_eq_children (hlate r r.self_mem_parts)] at hq
      have := height_lt_of_child hq
      exact ih (hr.part (mem_parts_of_child hq q.self_mem_parts))
        (fun p hp => hlate p (mem_parts_of_child hq hp)) (by omega) d
    exact Plan.trace_isSome hcallees (hr.plan_among c [])

section

variable (hs : s.Composed) (hr : r.Composed) (hlate : ∀ q ∈ r.parts, q.isLate = false)
include hs hr hlate

/-- In any text such a rule is over without limits, and makes no application deeper than it is
high. -/
theorem Composed.run_of_height (text : List Char) :
    ∃ step b, r.run s text .unbounded = some (step, b) ∧
    ∀ i a, r.Makes s text i a → a.depth ≤ r.height := by
  have hended := hr.trace_isSome_of_height (s := s) hlate (Nat.le_refl _) (.start text)
  obtain ⟨step, hstep⟩ := Option.isSome_iff_exists.1 hended
  refine ⟨step, _, (hr.run_evaluates hs).2 ⟨_, evaluates_of_trace hstep, rfl⟩, fun i a ha => ?_⟩
  have hle := depth_le s r.height r _ 0 a (List.mem_of_getElem? ((makes_iff_of_ended hended).1 ha))
  rwa [Nat.zero_add] at hle

/-- Without a bound on the steps, a bound on the depth makes no difference if it leaves room for the
height. -/
theorem Composed.parse_of_height {l : Limits} (hsteps : l.maxSteps = none)
    (hdepth : ∀ d, l.maxDepth = some d → r.height ≤ d) (text : String) :
    r.parseWith s text l = r.parseWith s text .unbounded ∧
    r.parseAllWith s text l = r.parseAllWith s text .unbounded := by
  obtain ⟨step, b, hrun, hmakes⟩ := hr.run_of_height hs hlate text.toList
  obtain ⟨depth, htakes, hlimits⟩ := hr.run_limited hs hrun
  obtain ⟨i, a, ha, rfl⟩ := htakes.attained
  have hle := hmakes i a ha
  refine parse_congr hrun ((hlimits l).1 ⟨fun n hn => ?_, fun d hd => ?_⟩) rfl
  · rw [hsteps] at hn
    cases hn
  · have := hdepth d hd
    omega

/-- All that limits can do to a parse is to stop it: a bound on the steps anywhere, and one on the
depth if it is below the height. -/
theorem Composed.parseAll_cases_of_height (l : Limits) (text : String) :
    r.parseAllWith s text l = r.parseAllWith s text .unbounded ∨
    (∃ n offset, l.maxSteps = some n ∧
      r.parseAllWith s text l = some (.error (.ofFault text.toList ⟨.stepLimit n, offset⟩))) ∨
    ∃ d offset, l.maxDepth = some d ∧ d < r.height ∧
      r.parseAllWith s text l = some (.error (.ofFault text.toList ⟨.depthLimit d, offset⟩)) := by
  obtain ⟨step, b, hrun, hmakes⟩ := hr.run_of_height hs hlate text.toList
  obtain ⟨depth, _, hlimits⟩ := hr.run_limited hs hrun
  by_cases hadmits : l.Admits b.steps depth
  · exact .inl (parse_congr hrun ((hlimits l).1 hadmits) rfl).2
  · obtain ⟨i, a, f, hfirst, b', hstop⟩ := (hlimits l).2 hadmits
    have hparse := (parse_fault hstop).2
    have hdepth := hmakes i a hfirst.makes
    cases hfirst.refuses with
    | steps hn _ => exact .inr (.inl ⟨_, _, hn, hparse⟩)
    | depth _ hd hlt => exact .inr (.inr ⟨_, _, hd, Nat.lt_of_lt_of_le hlt hdepth, hparse⟩)

end

end Rule

end Descent
