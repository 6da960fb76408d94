import Descent.Rule.Apply

namespace Descent

/-- The application of a rule begins, or it ends with a step. -/
inductive Event where
  | opened (r : Rule) (c : Cursor)
  | closed (r : Rule) (c : Cursor) (step : Step)

/-- A rule applied at a cursor, as one of `depth` applications that are open. -/
@[ext] structure Application where
  rule : Rule
  cursor : Cursor
  depth : Nat

namespace Event

/-- How many applications are open behind some events, if `depth` are before them. -/
def nesting : Nat → List Event → Nat
  | depth, [] => depth
  | depth, .opened .. :: es => nesting (depth+1) es
  | depth, .closed .. :: es => nesting (depth-1) es

/-- The applications that begin, in order. -/
def applications : Nat → List Event → List Application
  | _, [] => []
  | depth, .opened r c :: es => ⟨r, c, depth+1⟩ :: applications (depth+1) es
  | depth, .closed .. :: es => applications (depth-1) es

/-- The failures that applications end with, in order. -/
def failures (es : List Event) : List Failure :=
  es.filterMap fun
    | .closed _ _ (.ok (.failure f)) => some f
    | _ => none

@[simp] theorem nesting_append (depth : Nat) (es fs : List Event) :
    nesting depth (es ++ fs) = nesting (nesting depth es) fs := by
  induction es generalizing depth with
  | nil => rfl
  | cons e es ih => cases e <;> exact ih _

@[simp] theorem applications_append (depth : Nat) (es fs : List Event) :
    applications depth (es ++ fs) = applications depth es ++
      applications (nesting depth es) fs := by
  induction es generalizing depth with
  | nil => rfl
  | cons e es ih =>
    cases e with
    | opened r c => exact congrArg _ (ih _)
    | closed => exact ih _

theorem length_applications (depth depth' : Nat) (es : List Event) :
    (applications depth es).length = (applications depth' es).length := by
  induction es generalizing depth depth' with
  | nil => rfl
  | cons e es ih =>
    cases e with
    | opened r c => exact congrArg Nat.succ (ih _ _)
    | closed => exact ih _ _

@[simp] theorem failures_append (es fs : List Event) :
    failures (es ++ fs) = failures es ++ failures fs := List.filterMap_append

theorem mem_failures {f : Failure} {es : List Event} :
    f ∈ failures es ↔ ∃ r c, .closed r c (.ok (.failure f)) ∈ es := by
  simp only [failures, List.mem_filterMap]
  constructor
  · rintro ⟨e, he, hf⟩
    split at hf
    · rename_i r c g
      obtain rfl := Option.some.inj hf
      exact ⟨r, c, he⟩
    · cases hf
  · rintro ⟨r, c, h⟩
    exact ⟨_, h, rfl⟩

theorem opened_of_mem_applications {a : Application} {depth : Nat} {es : List Event}
    (h : a ∈ applications depth es) : .opened a.rule a.cursor ∈ es := by
  induction es generalizing depth with
  | nil => cases h
  | cons e es ih =>
    cases e with
    | opened r c =>
      rcases List.mem_cons.1 h with rfl | h
      · exact List.mem_cons_self
      · exact List.mem_cons_of_mem _ (ih h)
    | closed => exact List.mem_cons_of_mem _ (ih h)

end Event

/-- What happens on the way, and what comes of it. No step stands for rules that nest deeper than
the room there was. -/
@[ext] structure Trace where
  events : List Event
  step : Option Step

namespace Trace

def stuck : Trace := ⟨[], none⟩

/-- Goes on from an outcome; a fault ends all. -/
def andThen (t : Trace) (next : Outcome → Trace) : Trace :=
  match t.step with
  | some (.ok o) => ⟨t.events ++ (next o).events, (next o).step⟩
  | _ => t

/-- Goes on from a match; a failure is the end as well. -/
def require (t : Trace) (next : Match → Trace) : Trace :=
  t.andThen fun
    | .success m => next m
    | .failure f => ⟨[], some (.ok (.failure f))⟩

/-- The application of a rule, where `t` is what the rule does. -/
def wrap (r : Rule) (c : Cursor) (t : Trace) : Trace :=
  ⟨.opened r c :: (t.events ++ (t.step.map (Event.closed r c)).toList), t.step⟩

@[simp] theorem wrap_step (r : Rule) (c : Cursor) (t : Trace) : (wrap r c t).step = t.step := rfl

theorem andThen_ok {t : Trace} {o : Outcome} (h : t.step = some (.ok o)) (next : Outcome → Trace) :
    t.andThen next = ⟨t.events ++ (next o).events, (next o).step⟩ := by
  simp [andThen, h]

theorem andThen_error {t : Trace} {f : Fault} (h : t.step = some (.error f))
    (next : Outcome → Trace) : t.andThen next = t := by
  simp [andThen, h]

theorem andThen_none {t : Trace} (h : t.step = none) (next : Outcome → Trace) :
    t.andThen next = t := by
  simp [andThen, h]

/-- What goes on is over if it has met a fault, or if what goes on from its outcome is. -/
theorem andThen_cases {t : Trace} {next : Outcome → Trace} {step : Step}
    (h : (t.andThen next).step = some step) :
    (∃ f, t.step = some (.error f) ∧ step = .error f ∧ t.andThen next = t) ∨
      ∃ o, t.step = some (.ok o) ∧ (next o).step = some step := by
  cases ht : t.step with
  | none =>
    rw [andThen_none ht, ht] at h
    cases h
  | some first =>
    cases first with
    | error f =>
      rw [andThen_error ht, ht] at h
      exact .inl ⟨f, rfl, (Option.some.inj h).symm, andThen_error ht next⟩
    | ok o =>
      rw [andThen_ok ht] at h
      exact .inr ⟨o, rfl, h⟩

/-- `u` goes on where `t` got stuck, and is `t` itself if that is over. -/
def Grows (t u : Trace) : Prop := t.events <+: u.events ∧ ∀ step, t.step = some step → u = t

theorem Grows.refl (t : Trace) : t.Grows t := ⟨List.prefix_rfl, fun _ _ => rfl⟩

theorem Grows.trans {t u v : Trace} (h : t.Grows u) (k : u.Grows v) : t.Grows v := by
  refine ⟨h.1.trans k.1, ?_⟩
  intro step ht
  have hu := h.2 step ht
  exact (k.2 step (hu ▸ ht)).trans hu

theorem stuck_grows (t : Trace) : stuck.Grows t := by
  refine ⟨List.nil_prefix, ?_⟩
  intro step h
  simp [stuck] at h

theorem Grows.andThen {t u : Trace} (h : t.Grows u) {f g : Outcome → Trace}
    (hn : ∀ o, (f o).Grows (g o)) : (t.andThen f).Grows (u.andThen g) := by
  cases ht : t.step with
  | none =>
    rw [andThen_none ht]
    refine ⟨h.1.trans ?_, ?_⟩
    · unfold Trace.andThen
      split
      · exact List.prefix_append _ _
      · exact List.prefix_rfl
    · intro step hs
      rw [ht] at hs
      cases hs
  | some step =>
    obtain rfl := h.2 step ht
    cases step with
    | error f => rw [andThen_error ht, andThen_error ht]; exact Grows.refl u
    | ok o =>
      rw [andThen_ok ht, andThen_ok ht]
      refine ⟨(List.prefix_append_right_inj _).2 (hn o).1, ?_⟩
      intro step hs
      rw [(hn o).2 step hs]

theorem Grows.wrap {t u : Trace} (h : t.Grows u) (r : Rule) (c : Cursor) :
    (t.wrap r c).Grows (u.wrap r c) := by
  cases ht : t.step with
  | none =>
    refine ⟨?_, ?_⟩
    · simp only [Trace.wrap, ht, Option.map_none, Option.toList_none, List.append_nil]
      exact (List.prefix_cons_inj _).2 (h.1.trans (List.prefix_append _ _))
    · intro step hs
      rw [wrap_step, ht] at hs
      cases hs
  | some step =>
    rw [h.2 step ht]
    exact Grows.refl _

/-- Whatever began is over when the trace is. -/
def Level (t : Trace) : Prop := t.step.isSome → ∀ depth, Event.nesting depth t.events = depth

end Trace

/-- Follows a plan; `apply` applies the rules that it calls for. What looks at an account has no
trace. -/
def Plan.trace (apply : Rule → Cursor → Trace) : Plan → Trace
  | .done step => ⟨[], some step⟩
  | .observe _ => .stuck
  | .apply r c next => (apply r c).andThen fun o => (next o).trace apply

@[simp] theorem Plan.trace_require (apply : Rule → Cursor → Trace) (r : Rule) (c : Cursor)
    (next : Match → Plan) :
    (require r c next).trace apply = (apply r c).require fun m => (next m).trace apply := by
  rw [require, Plan.trace, Trace.require]
  congr
  funext o
  cases o <;> rfl

/-- The evaluation of a rule, with room for `room` applications one inside the other. -/
def Rule.trace (s : Store) : Nat → Rule → Cursor → Trace
  | 0, _, _ => .stuck
  | room+1, r, c => .wrap r c ((r.plan s c).trace (Rule.trace s room))

theorem Plan.trace_grows {apply apply' : Rule → Cursor → Trace}
    (h : ∀ r c, (apply r c).Grows (apply' r c)) (p : Plan) :
    (p.trace apply).Grows (p.trace apply') := by
  induction p with
  | done => exact Trace.Grows.refl _
  | observe => exact Trace.Grows.refl _
  | apply r c next ih => exact (h r c).andThen ih

theorem Plan.trace_level {apply : Rule → Cursor → Trace} (h : ∀ r c, (apply r c).Level) (p : Plan) :
    (p.trace apply).Level := by
  induction p with
  | done => exact fun _ _ => rfl
  | observe => exact fun _ _ => rfl
  | apply r c next ih =>
    rw [Plan.trace]
    cases ht : (apply r c).step with
    | none =>
      rw [Trace.andThen_none ht]
      exact h r c
    | some step =>
      have hl := h r c (by rw [ht]; rfl)
      cases step with
      | error f =>
        rw [Trace.andThen_error ht]
        exact h r c
      | ok o =>
        rw [Trace.andThen_ok ht]
        intro hs depth
        rw [Event.nesting_append, hl, ih o hs]

theorem Rule.trace_level (s : Store) (room : Nat) (r : Rule) (c : Cursor) :
    (r.trace s room c).Level := by
  induction room generalizing r c with
  | zero => exact fun _ _ => rfl
  | succ room ih =>
    intro hs depth
    have hl := Plan.trace_level ih (r.plan s c) hs
    obtain ⟨step, hstep⟩ := Option.isSome_iff_exists.1 hs
    rw [Rule.trace, Trace.wrap_step] at hstep
    simp [Rule.trace, Trace.wrap, hstep, Event.nesting, hl]

theorem Rule.trace_succ_grows (s : Store) (room : Nat) (r : Rule) (c : Cursor) :
    (r.trace s room c).Grows (r.trace s (room+1) c) := by
  induction room generalizing r c with
  | zero => exact Trace.stuck_grows _
  | succ room ih => exact (Plan.trace_grows ih _).wrap r c

theorem Rule.trace_grows (s : Store) {room room' : Nat} (h : room ≤ room') (r : Rule) (c : Cursor) :
    (r.trace s room c).Grows (r.trace s room' c) := by
  induction h with
  | refl => exact Trace.Grows.refl _
  | step _ ih => exact ih.trans (Rule.trace_succ_grows s _ r c)

end Descent
