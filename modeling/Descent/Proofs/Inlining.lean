import Descent.Proofs.Unlimited

namespace Descent

namespace Finding

theorem AndThen.mono {p p' : Finding} {q q' : Outcome → Finding} {step : Step} {g : Option Failure}
    (h : AndThen p q step g) (hp : ∀ step g, p step g → p' step g)
    (hq : ∀ o g, q o step g → q' o step g) : AndThen p' q' step g := by
  cases h with
  | fault h => exact .fault (hp _ _ h)
  | onward h hnext => exact .onward (hp _ _ h) (hq _ _ hnext)

theorem andThen_congr {p p' : Finding} {q q' : Outcome → Finding} {step : Step} {g : Option Failure}
    (hp : ∀ step g, p step g ↔ p' step g) (hq : ∀ o g, q o step g ↔ q' o step g) :
    AndThen p q step g ↔ AndThen p' q' step g :=
  ⟨fun h => h.mono (fun _ _ => (hp _ _).1) fun _ _ => (hq _ _).1,
    fun h => h.mono (fun _ _ => (hp _ _).2) fun _ _ => (hq _ _).2⟩

theorem AndThen.mono_behind {p : Finding} {q q' : Outcome → Finding} {step : Step}
    {g : Option Failure} (hall : AndThen p q step g)
    (h : ∀ o k, p (.ok o) k → ∀ l, q o step l →
      ∃ l', q' o step l' ∧ Failure.join k l = Failure.join k l') :
    AndThen p q' step g := by
  cases hall with
  | fault hfirst => exact .fault hfirst
  | onward hfirst hnext =>
    obtain ⟨l, hl, hjoin⟩ := h _ _ hfirst _ hnext
    rw [hjoin]
    exact .onward hfirst hl

/-- What goes on need be the same only behind what is found of the first part, and with that
record. -/
theorem andThen_congr_behind {p : Finding} {q q' : Outcome → Finding} {step : Step}
    {g : Option Failure} (h : ∀ o k, p (.ok o) k →
      ∀ g, (∃ l, q o step l ∧ g = Failure.join k l) ↔ ∃ l, q' o step l ∧ g = Failure.join k l) :
    AndThen p q step g ↔ AndThen p q' step g := by
  constructor
  · exact fun hall => hall.mono_behind fun o k hfirst l hl => (h o k hfirst _).1 ⟨l, hl, rfl⟩
  · exact fun hall => hall.mono_behind fun o k hfirst l hl => (h o k hfirst _).2 ⟨l, hl, rfl⟩

theorem andThen_assoc {p : Finding} {q r : Outcome → Finding} {step : Step} {g : Option Failure} :
    AndThen (AndThen p q) r step g ↔ AndThen p (fun o => AndThen (q o) r) step g := by
  constructor
  · intro h
    cases h with
    | fault h =>
      cases h with
      | fault h => exact .fault h
      | onward h hnext => exact .onward h (.fault hnext)
    | onward h hrest =>
      cases h with
      | onward h hnext =>
        rw [Failure.join_assoc]
        exact .onward h (.onward hnext hrest)
  · intro h
    cases h with
    | fault h => exact .fault (.fault h)
    | onward h hnext =>
      cases hnext with
      | fault hnext => exact .fault (.onward h hnext)
      | onward hnext hrest =>
        rw [← Failure.join_assoc]
        exact .onward (.onward h hnext) hrest

/-- Two findings have the same steps, and if `exact` the same records with them. -/
structure Agree (exact : Prop) (p q : Finding) : Prop where
  steps : ∀ step, (∃ g, p step g) ↔ ∃ g, q step g
  records : exact → ∀ step g, p step g ↔ q step g

theorem agree_of_iff {exact : Prop} {p q : Finding} (h : ∀ step g, p step g ↔ q step g) :
    Agree exact p q :=
  ⟨fun step => exists_congr (h step), fun _ => h⟩

theorem Agree.congr {exact : Prop} {p p' q q' : Finding} (h : Agree exact p q)
    (hp : ∀ step g, p' step g ↔ p step g) (hq : ∀ step g, q' step g ↔ q step g) :
    Agree exact p' q' where
  steps step := (exists_congr (hp step)).trans ((h.steps step).trans (exists_congr (hq step)).symm)
  records hexact step g := (hp step g).trans ((h.records hexact step g).trans (hq step g).symm)

theorem Agree.andThen {exact : Prop} {p p' : Finding} {q q' : Outcome → Finding}
    (hp : Agree exact p p') (hq : ∀ o, Agree exact (q o) (q' o)) :
    Agree exact (AndThen p q) (AndThen p' q') := by
  have hsteps {p p' : Finding} {q q' : Outcome → Finding}
      (hp : ∀ step, (∃ g, p step g) → ∃ g, p' step g)
      (hq : ∀ o step, (∃ g, q o step g) → ∃ g, q' o step g) {step : Step} {g : Option Failure}
      (h : AndThen p q step g) : ∃ g, AndThen p' q' step g := by
    cases h with
    | fault h =>
      obtain ⟨k, hk⟩ := hp _ ⟨_, h⟩
      exact ⟨k, .fault hk⟩
    | onward h hnext =>
      obtain ⟨k, hk⟩ := hp _ ⟨_, h⟩
      obtain ⟨k', hk'⟩ := hq _ _ ⟨_, hnext⟩
      exact ⟨_, .onward hk hk'⟩
  constructor
  · intro step
    constructor
    · intro h
      obtain ⟨_, h⟩ := h
      exact hsteps (fun step => (hp.steps step).1) (fun o step => ((hq o).steps step).1) h
    · intro h
      obtain ⟨_, h⟩ := h
      exact hsteps (fun step => (hp.steps step).2) (fun o step => ((hq o).steps step).2) h
  · intro hexact step g
    exact andThen_congr (hp.records hexact) fun o g => (hq o).records hexact step g

end Finding

namespace Plan

variable {s : Store} {r : Rule} {c : Cursor} {step : Step} {g : Option Failure}

/-- The plan, and behind each outcome of it the plan that goes on from there. -/
def follow (next : Outcome → Plan) : Plan → Plan
  | .done (.ok o) => next o
  | .done (.error f) => .done (.error f)
  | .observe run => .observe run
  | .apply r c rest => .apply r c fun o => (rest o).follow next

theorem follow_assoc (p : Plan) (next rest : Outcome → Plan) :
    (p.follow next).follow rest = p.follow fun o => (next o).follow rest := by
  induction p with
  | done step => cases step <;> rfl
  | observe => rfl
  | apply r c k ih => simp only [follow, ih]

theorem yields_follow {p : Plan} {next : Outcome → Plan} : (p.follow next).Yields s step g ↔
    Finding.AndThen (p.Yields s) (fun o => (next o).Yields s) step g := by
  induction p generalizing step g with
  | done first =>
    cases first with
    | error f =>
      constructor
      · intro h
        obtain ⟨rfl, rfl⟩ := yields_done.1 h
        exact .fault h
      · intro h
        cases h with
        | fault h => exact h
        | onward h => cases (yields_done.1 h).1
    | ok o =>
      constructor
      · intro h
        have hall : Finding.AndThen ((done (.ok o)).Yields s) (fun o => (next o).Yields s) step
            (Failure.join none g) :=
          .onward (yields_done.2 ⟨rfl, rfl⟩) h
        rwa [Failure.join_none_left] at hall
      · intro h
        cases h with
        | fault h => cases (yields_done.1 h).1
        | onward h hnext =>
          obtain ⟨ho, rfl⟩ := yields_done.1 h
          cases ho
          rw [Failure.join_none_left]
          exact hnext
  | observe run =>
    constructor
    · intro h
      exact absurd h (not_yields_observe run)
    · intro h
      cases h with
      | fault h | onward h => exact absurd h (not_yields_observe run)
  | apply r c k ih =>
    rw [follow, yields_apply, Finding.andThen_congr (fun _ _ => Iff.rfl) (fun o _ => ih o),
      ← Finding.andThen_assoc]
    exact Finding.andThen_congr (fun _ _ => yields_apply.symm) fun _ _ => Iff.rfl

/-- By the time the rule fails, its failure is nothing new to the record. -/
def AddsNothing (s : Store) (r : Rule) (c : Cursor) : Prop :=
  ∀ f k, (r.plan s c).Yields s (.ok (.failure f)) k → Failure.Covers k (some f)

/-- A rule may be written out in place of its application. What is recorded is the same if the rule
adds nothing. -/
theorem agree_written_out (s : Store) (r : Rule) (c : Cursor) (next : Outcome → Plan) :
    Finding.Agree (AddsNothing s r c) ((apply r c next).Yields s)
      (((r.plan s c).follow next).Yields s) := by
  have hrule : Finding.Agree (AddsNothing s r c) (r.Yields s c) ((r.plan s c).Yields s) := by
    constructor
    · intro step
      simp only [Rule.yields_iff_plan]
      constructor
      · intro h
        obtain ⟨_, k, hk, _⟩ := h
        exact ⟨k, hk⟩
      · intro h
        obtain ⟨k, hk⟩ := h
        exact ⟨_, k, hk, rfl⟩
    · intro hquiet step g
      have hcovers (k : Option Failure) (hk : (r.plan s c).Yields s step k) :
          Failure.join k step.failure? = k := by
        match step with
        | .ok (.failure f) => exact hquiet f k hk
        | .ok (.success m) => exact Failure.join_none_right k
        | .error f => exact Failure.join_none_right k
      rw [Rule.yields_iff_plan]
      constructor
      · intro h
        obtain ⟨k, hk, rfl⟩ := h
        rwa [hcovers k hk]
      · intro hk
        exact ⟨g, hk, (hcovers g hk).symm⟩
  have hparts :=
    hrule.andThen fun o => Finding.agree_of_iff (p := (next o).Yields s) fun _ _ => Iff.rfl
  exact hparts.congr (fun _ _ => yields_apply) fun _ _ => yields_follow

theorem agree_follow {exact : Prop} (p : Plan) {next next' : Outcome → Plan}
    (h : ∀ o, Finding.Agree exact ((next o).Yields s) ((next' o).Yields s)) :
    Finding.Agree exact ((p.follow next).Yields s) ((p.follow next').Yields s) := by
  have hparts := (Finding.agree_of_iff (p := p.Yields s) fun _ _ => Iff.rfl).andThen h
  exact hparts.congr (fun _ _ => yields_follow) fun _ _ => yields_follow

end Plan

namespace Rule

variable {s : Store} {r : Rule} {c : Cursor} {step : Step} {g : Option Failure}

/-- Applied at `c` on the account `b`, the rule comes to `step`, and the account has `g` for its
furthest failure. -/
def Leaves (s : Store) (r : Rule) (c : Cursor) (b : Budget) (step : Step) (g : Option Failure) :
    Prop :=
  ∃ room b', r.apply s room c b = some (step, b') ∧ b'.furthest = g

/-- Without limits an account has its own record and that of the evaluation merged. -/
theorem Composed.leaves_iff (hs : s.Composed) (hr : r.Composed) {b : Budget}
    (hb : b.limits = .unbounded) :
    r.Leaves s c b step g ↔ ∃ k, r.Yields s c step k ∧ g = Failure.join b.furthest k := by
  constructor
  · intro h
    obtain ⟨room, b', happly, rfl⟩ := h
    rw [hr.apply_eq_settle hs, Trace.settle_unbounded _ hb] at happly
    obtain ⟨first, hfirst, hx⟩ := Option.map_eq_some_iff.1 happly
    obtain ⟨rfl, rfl⟩ := Prod.mk.inj hx
    exact ⟨_, ⟨_, evaluates_of_trace hfirst, rfl⟩, rfl⟩
  · intro h
    obtain ⟨_, ⟨es, ⟨room, hroom⟩, rfl⟩, rfl⟩ := h
    refine ⟨room, b.after es, ?_, rfl⟩
    rw [hr.apply_eq_settle hs, Trace.settle_unbounded _ hb, hroom]
    rfl

end Rule

end Descent
