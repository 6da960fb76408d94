import Descent.Proofs.Ending

namespace Descent

/-- The failure that an application records when it ends. -/
def Step.failure? : Step → Option Failure
  | .ok (.failure f) => some f
  | _ => none

theorem Event.furthest_closed (es : List Event) (r : Rule) (c : Cursor) (step : Step) :
    Failure.furthest (failures (.opened r c :: (es ++ [.closed r c step]))) =
      Failure.join (Failure.furthest (failures es)) step.failure? := by
  have hopened : failures (.opened r c :: (es ++ [.closed r c step])) =
      failures es ++ failures [.closed r c step] :=
    failures_append (.opened r c :: es) [.closed r c step]
  rw [hopened, Failure.furthest_append]
  match step with
  | .ok (.failure f) => rfl
  | .ok (.success m) => rfl
  | .error f => rfl

/-- What something comes to, and the failure that got furthest on the way. -/
abbrev Finding := Step → Option Failure → Prop

/-- What is found of a first part and of the part that goes on from its outcome. A fault ends
all. -/
inductive Finding.AndThen (first : Finding) (next : Outcome → Finding) : Finding
  | fault {f : Fault} {g : Option Failure} (h : first (.error f) g) :
      AndThen first next (.error f) g
  | onward {o : Outcome} {step : Step} {g k : Option Failure} (h : first (.ok o) g)
    (hnext : next o step k) : AndThen first next step (Failure.join g k)

/-- Evaluated at `c` without limits, the rule comes to `step`, and `g` is the failure that got
furthest on the way. -/
def Rule.Yields (s : Store) (r : Rule) (c : Cursor) : Finding := fun step g =>
  ∃ es, r.Evaluates s c step es ∧ Failure.furthest (Event.failures es) = g

/-- Followed without limits, the plan comes to `step`, and `g` is the failure that got furthest on
the way. -/
def Plan.Yields (s : Store) (p : Plan) : Finding := fun step g =>
  ∃ room, (p.trace (Rule.trace s room)).step = some step ∧
    Failure.furthest (Event.failures (p.trace (Rule.trace s room)).events) = g

namespace Rule

variable {s : Store} {r : Rule} {c : Cursor} {step : Step} {g : Option Failure}

theorem Yields.unique {step' : Step} {g' : Option Failure} (h : r.Yields s c step g)
    (h' : r.Yields s c step' g') : step' = step ∧ g' = g := by
  obtain ⟨es, hes, rfl⟩ := h
  obtain ⟨es', hes', rfl⟩ := h'
  obtain ⟨rfl, rfl⟩ := hes.unique hes'
  exact ⟨rfl, rfl⟩

/-- A rule yields what its plan does, and records its own failure on top of that. -/
theorem yields_iff_plan : r.Yields s c step g ↔
    ∃ k, (r.plan s c).Yields s step k ∧ g = Failure.join k step.failure? := by
  constructor
  · intro h
    obtain ⟨es, hes, rfl⟩ := h
    obtain ⟨room, hroom⟩ := hes.exists_succ
    have hstep : ((r.plan s c).trace (Rule.trace s room)).step = some step :=
      congrArg Trace.step hroom
    have hevents : es = .opened r c ::
        (((r.plan s c).trace (Rule.trace s room)).events ++ [.closed r c step]) := by
      have hevents := congrArg Trace.events hroom
      rw [Rule.trace, Trace.wrap, hstep] at hevents
      exact hevents.symm
    refine ⟨_, ⟨room, hstep, rfl⟩, ?_⟩
    rw [hevents, Event.furthest_closed]
  · intro h
    obtain ⟨k, ⟨room, hstep, rfl⟩, rfl⟩ := h
    refine ⟨_, ⟨room+1, Trace.ext rfl hstep⟩, ?_⟩
    rw [Rule.trace, Trace.wrap, hstep, Option.map_some, Option.toList_some, Event.furthest_closed]

/-- A failure of the rule is among those that got furthest on its way, or some other one got
further. -/
theorem Yields.covers {f : Failure} (h : r.Yields s c (.ok (.failure f)) g) :
    Failure.Covers g (some f) := by
  obtain ⟨k, _, rfl⟩ := yields_iff_plan.1 h
  exact (Failure.covers_self (some f)).join_left k

end Rule

namespace Plan

variable {s : Store} {r : Rule} {c : Cursor} {step : Step} {g : Option Failure}

theorem yields_done {first : Step} : (done first).Yields s step g ↔ step = first ∧ g = none := by
  constructor
  · intro h
    obtain ⟨_, hstep, rfl⟩ := h
    exact ⟨(Option.some.inj hstep).symm, rfl⟩
  · intro h
    obtain ⟨rfl, rfl⟩ := h
    exact ⟨0, rfl, rfl⟩

theorem not_yields_observe (run : Budget → Step) : ¬ (observe run).Yields s step g := by
  intro h
  obtain ⟨_, hstep, _⟩ := h
  cases hstep

/-- A plan yields what the rule does that it applies first, and what it makes of the outcome. -/
theorem yields_apply {next : Outcome → Plan} : (apply r c next).Yields s step g ↔
    Finding.AndThen (r.Yields s c) (fun o => (next o).Yields s) step g := by
  constructor
  · intro h
    obtain ⟨room, hstep, rfl⟩ := h
    have htrace : (apply r c next).trace (Rule.trace s room) =
        (r.trace s room c).andThen fun o => (next o).trace (Rule.trace s room) := rfl
    rw [htrace] at hstep ⊢
    rcases Trace.andThen_cases hstep with ⟨f, hf, rfl, hall⟩ | ⟨o, ho, hnext⟩
    · rw [hall]
      exact .fault ⟨_, Rule.evaluates_of_trace hf, rfl⟩
    · rw [Trace.andThen_ok ho, Event.failures_append, Failure.furthest_append]
      exact .onward ⟨_, Rule.evaluates_of_trace ho, rfl⟩ ⟨room, hnext, rfl⟩
  · intro h
    cases h with
    | fault h =>
      obtain ⟨es, ⟨room, hroom⟩, rfl⟩ := h
      have hstop :=
        Trace.andThen_error (congrArg Trace.step hroom) fun o => (next o).trace (Rule.trace s room)
      rw [hroom] at hstop
      exact ⟨room, by rw [trace, hroom, hstop], by rw [trace, hroom, hstop]⟩
    | @onward o step g k h hnext =>
      obtain ⟨es, ⟨room, hroom⟩, rfl⟩ := h
      obtain ⟨room', hnext, rfl⟩ := hnext
      -- In room for both, each part is as in its own.
      have hfirst := Rule.Evaluates.trace hroom (Nat.le_max_left room room')
      have hgrows :=
        Plan.trace_grows (fun q d => Rule.trace_grows s (Nat.le_max_right room room') q d) (next o)
      have hgo := Trace.andThen_ok (congrArg Trace.step hfirst) fun o =>
          (next o).trace (Rule.trace s (max room room'))
      rw [hfirst, hgrows.2 _ hnext] at hgo
      refine ⟨max room room', ?_, ?_⟩
      · rw [trace, hfirst, hgo]
        exact hnext
      · rw [trace, hfirst, hgo, Event.failures_append, Failure.furthest_append]

/-- A plan that first applies a rule of which the outcome is known goes on from there. -/
theorem yields_apply_of {next : Outcome → Plan} {o : Outcome} {k : Option Failure}
    (h : r.Yields s c (.ok o) k) :
    (apply r c next).Yields s step g ↔ ∃ l, (next o).Yields s step l ∧ g = Failure.join k l := by
  rw [yields_apply]
  constructor
  · intro hall
    cases hall with
    | fault hfault => cases (h.unique hfault).1
    | onward ho hnext =>
      obtain ⟨hstep, rfl⟩ := h.unique ho
      cases hstep
      exact ⟨_, hnext, rfl⟩
  · intro hall
    obtain ⟨l, hnext, rfl⟩ := hall
    exact .onward h hnext

end Plan

/-- Evaluated at `c` without limits, the rule comes to `step`. -/
def Rule.Comes (s : Store) (r : Rule) (c : Cursor) (step : Step) : Prop := ∃ g, r.Yields s c step g

/-- Followed without limits, the plan comes to `step`. -/
def Plan.Comes (s : Store) (p : Plan) (step : Step) : Prop := ∃ g, p.Yields s step g

section

variable {s : Store} {r : Rule} {c : Cursor} {o : Outcome} {m : Match} {f : Failure} {step : Step}

namespace Plan

theorem comes_done {first : Step} : (done first).Comes s step ↔ step = first := by
  simp [Comes, yields_done]

theorem comes_gather {values : List Value} {start : Cursor} : (gather values start c).Comes s step ↔
    step = .ok (.success (.spanning (.list values.reverse) start c)) := comes_done

theorem comes_apply {next : Outcome → Plan} : (apply r c next).Comes s step ↔
    (∃ f, r.Comes s c (.error f) ∧ step = .error f) ∨
      ∃ o, r.Comes s c (.ok o) ∧ (next o).Comes s step := by
  constructor
  · intro h
    obtain ⟨_, hall⟩ := h
    cases yields_apply.1 hall with
    | fault h => exact .inl ⟨_, ⟨_, h⟩, rfl⟩
    | onward h hnext => exact .inr ⟨_, ⟨_, h⟩, _, hnext⟩
  · rintro (⟨f, ⟨g, hf⟩, rfl⟩ | ⟨o, ⟨g, ho⟩, k, hnext⟩)
    · exact ⟨g, yields_apply.2 (.fault hf)⟩
    · exact ⟨_, yields_apply.2 (.onward ho hnext)⟩

theorem comes_require {next : Match → Plan} : (require r c next).Comes s step ↔
    (∃ f, r.Comes s c (.error f) ∧ step = .error f) ∨
    (∃ f, r.Comes s c (.ok (.failure f)) ∧ step = .ok (.failure f)) ∨
    ∃ m, r.Comes s c (.ok (.success m)) ∧ (next m).Comes s step := by
  rw [require, comes_apply]
  constructor
  · rintro (hfault | ⟨o, ho, hnext⟩)
    · exact .inl hfault
    · cases o with
      | failure f => exact .inr (.inl ⟨f, ho, comes_done.1 hnext⟩)
      | success m => exact .inr (.inr ⟨m, ho, hnext⟩)
  · rintro (hfault | ⟨f, hf, rfl⟩ | ⟨m, hm, hnext⟩)
    · exact .inl hfault
    · exact .inr ⟨_, hf, comes_done.2 rfl⟩
    · exact .inr ⟨_, hm, hnext⟩

end Plan

namespace Rule

theorem comes_of_trace (room : Nat) (h : (r.trace s room c).step = some step) : r.Comes s c step :=
  ⟨_, _, evaluates_of_trace h, rfl⟩

/-- A rule comes to what its plan does. -/
theorem comes_iff_plan : r.Comes s c step ↔ (r.plan s c).Comes s step := by
  constructor
  · intro h
    obtain ⟨_, h⟩ := h
    obtain ⟨k, hk, _⟩ := yields_iff_plan.1 h
    exact ⟨k, hk⟩
  · intro h
    obtain ⟨k, hk⟩ := h
    exact ⟨_, yields_iff_plan.2 ⟨k, hk, rfl⟩⟩

theorem Comes.unique {step' : Step} (h : r.Comes s c step) (h' : r.Comes s c step') :
    step' = step := by
  obtain ⟨_, h⟩ := h
  obtain ⟨_, h'⟩ := h'
  exact (h.unique h').1

/-- A plan that first applies a rule goes on from what the rule comes to. -/
theorem Comes.apply (h : r.Comes s c (.ok o)) {next : Outcome → Plan} :
    (Plan.apply r c next).Comes s step ↔ (next o).Comes s step := by
  rw [Plan.comes_apply]
  constructor
  · rintro (⟨f, hf, _⟩ | ⟨o', ho', hnext⟩)
    · cases h.unique hf
    · cases h.unique ho'
      exact hnext
  · exact fun hnext => .inr ⟨o, h, hnext⟩

theorem Comes.require (h : r.Comes s c (.ok (.success m))) {next : Match → Plan} :
    (Plan.require r c next).Comes s step ↔ (next m).Comes s step := h.apply

theorem Comes.miss (h : r.Comes s c (.ok (.failure f))) {next : Match → Plan} :
    (Plan.require r c next).Comes s step ↔ step = .ok (.failure f) := h.apply.trans Plan.comes_done

theorem comes_literal_empty :
    (literal "").Comes s c step ↔ step = .ok (.success (.spanning (.text "") c c)) := by
  rw [comes_iff_plan, plan_literal_empty]
  exact Plan.comes_done

theorem comes_require_empty {next : Match → Plan} :
    (Plan.require (literal "") c next).Comes s step ↔
      (next (.spanning (.text "") c c)).Comes s step :=
  (comes_literal_empty.2 rfl).require

theorem comes_optional : (optional r).Comes s c step ↔
    (∃ f, r.Comes s c (.error f) ∧ step = .error f) ∨
    (∃ f, r.Comes s c (.ok (.failure f)) ∧ step = .ok (.success (.spanning .unit c c))) ∨
    ∃ m, r.Comes s c (.ok (.success m)) ∧ step = .ok (.success m) := by
  rw [comes_iff_plan, plan, Plan.optional, Plan.comes_apply]
  constructor
  · rintro (hfault | ⟨o, ho, hnext⟩)
    · exact .inl hfault
    · cases o with
      | failure f => exact .inr (.inl ⟨f, ho, Plan.comes_done.1 hnext⟩)
      | success m => exact .inr (.inr ⟨m, ho, Plan.comes_done.1 hnext⟩)
  · rintro (hfault | ⟨f, hf, rfl⟩ | ⟨m, hm, rfl⟩)
    · exact .inl hfault
    · exact .inr ⟨_, hf, Plan.comes_done.2 rfl⟩
    · exact .inr ⟨_, hm, Plan.comes_done.2 rfl⟩

end Rule

end

namespace Rule

/-- Applied at `c` without limits, the rule comes to `step`, whatever the account. -/
def Gives (s : Store) (r : Rule) (c : Cursor) (step : Step) : Prop :=
  ∀ b : Budget, b.limits = .unbounded → ∃ room b', r.apply s room c b = some (step, b')

variable {s : Store} {r : Rule} {c : Cursor} {step : Step}

theorem Gives.unique {step' : Step} (h : r.Gives s c step) (h' : r.Gives s c step') :
    step' = step := by
  obtain ⟨room, b, hroom⟩ := h (.fresh .unbounded) rfl
  obtain ⟨room', b', hroom'⟩ := h' (.fresh .unbounded) rfl
  have hmore := apply_mono (Nat.le_max_left room room') hroom
  rw [apply_mono (Nat.le_max_right room room') hroom'] at hmore
  exact (Prod.mk.inj (Option.some.inj hmore)).1

section

variable (hs : s.Composed) (hr : r.Composed)
include hs hr

/-- One account without limits tells what the rule comes to. -/
theorem Composed.comes_of_apply {room : Nat} {b b' : Budget} (hb : b.limits = .unbounded)
    (h : r.apply s room c b = some (step, b')) : r.Comes s c step := by
  rw [hr.apply_eq_settle hs, Trace.settle_unbounded _ hb] at h
  obtain ⟨x, hx, hxs⟩ := Option.map_eq_some_iff.1 h
  exact comes_of_trace room (hx.trans (congrArg some (Prod.mk.inj hxs).1))

/-- What a rule comes to, it comes to on all accounts. -/
theorem Composed.gives_iff : r.Gives s c step ↔ r.Comes s c step := by
  constructor
  · intro h
    obtain ⟨room, b', hroom⟩ := h (.fresh .unbounded) rfl
    exact hr.comes_of_apply hs rfl hroom
  · rintro ⟨_, _, ⟨room, h⟩, _⟩ b hb
    refine ⟨room, b.after (r.trace s room c).events, ?_⟩
    rw [hr.apply_eq_settle hs, Trace.settle_unbounded _ hb, h]
    rfl

theorem Composed.gives_reaches {m : Match} (h : r.Gives s c (.ok (.success m))) :
    c.Reaches m.rest := by
  obtain ⟨_, _, hroom⟩ := h (.fresh .unbounded) rfl
  exact (hr.apply_within hs hroom).2

theorem gives_optional : (optional r).Gives s c step ↔
    (∃ f, r.Gives s c (.error f) ∧ step = .error f) ∨
    (∃ f, r.Gives s c (.ok (.failure f)) ∧ step = .ok (.success (.spanning .unit c c))) ∨
    ∃ m, r.Gives s c (.ok (.success m)) ∧ step = .ok (.success m) := by
  simp only [hr.gives_iff hs, hr.optional.gives_iff hs]
  exact comes_optional

theorem gives_optional_success {m : Match} : (optional r).Gives s c (.ok (.success m)) ↔
    ((∃ f, r.Gives s c (.ok (.failure f))) ∧ m = .spanning .unit c c) ∨
      r.Gives s c (.ok (.success m)) := by
  rw [gives_optional hs hr]
  simp

theorem optional_never_fails (f : Failure) : ¬ (optional r).Gives s c (.ok (.failure f)) := by
  rw [gives_optional hs hr]
  simp

end

end Rule

end Descent
