import Descent.Proofs.Composed
import Descent.Proofs.Merge

namespace Descent

/-- The step is a fault that a limit raised. -/
def Step.Refused (step : Step) : Prop :=
  ∃ f : Fault, step = .error f ∧ (f.kind = .depthLimit ∨ f.kind = .stepLimit)

theorem Step.not_refused_ok (o : Outcome) : ¬ Step.Refused (.ok o) := by
  rintro ⟨f, hf, _⟩
  cases hf

namespace Limits

/-- An application that is the `ordinal`th and one of `depth` open ones is within the limits. -/
structure Admits (l : Limits) (ordinal depth : Nat) : Prop where
  steps : ∀ n, l.maxSteps = some n → ordinal ≤ n
  depth : ∀ d, l.maxDepth = some d → depth ≤ d

/-- The fault that keeps such an application from `offset`. Steps are counted first. -/
inductive Refuses (l : Limits) (ordinal depth offset : Nat) : Fault → Prop
  | steps {n : Nat} (h : l.maxSteps = some n) (hn : n < ordinal) :
    Refuses l ordinal depth offset ⟨.stepLimit n, offset⟩
  | depth {d : Nat} (hs : ∀ n, l.maxSteps = some n → ordinal ≤ n) (h : l.maxDepth = some d)
    (hd : d < depth) : Refuses l ordinal depth offset ⟨.depthLimit d, offset⟩

theorem Refuses.not_admits {l : Limits} {ordinal depth offset : Nat} {f : Fault}
    (h : l.Refuses ordinal depth offset f) : ¬ l.Admits ordinal depth := by
  intro ha
  cases h with
  | steps h hn => exact absurd (ha.steps _ h) (by omega)
  | depth hs h hd => exact absurd (ha.depth _ h) (by omega)

theorem Refuses.offset_eq {l : Limits} {ordinal depth offset : Nat} {f : Fault}
    (h : l.Refuses ordinal depth offset f) : f.offset = offset := by
  cases h <;> rfl

theorem Refuses.refused {l : Limits} {ordinal depth offset : Nat} {f : Fault}
    (h : l.Refuses ordinal depth offset f) : Step.Refused (.error f) := by
  cases h with
  | steps => exact ⟨_, rfl, .inr rfl⟩
  | depth => exact ⟨_, rfl, .inl rfl⟩

theorem not_refuses_unbounded {ordinal depth offset : Nat} {f : Fault} :
    ¬ unbounded.Refuses ordinal depth offset f := by
  intro h
  cases h with
  | steps h | depth _ h => cases h

end Limits

namespace Budget

theorem exceeded?_eq_none_iff {max : Option Nat} {n : Nat} :
    exceeded? max n = none ↔ ∀ m, max = some m → n ≤ m := by
  cases max with
  | none => simp [exceeded?]
  | some m => simp [exceeded?]

theorem exceeded?_eq_some_iff {max : Option Nat} {n m : Nat} :
    exceeded? max n = some m ↔ max = some m ∧ m < n := by
  cases max with
  | none => simp [exceeded?]
  | some k =>
    simp only [exceeded?, Option.ite_none_right_eq_some, Option.some.injEq]
    constructor
    · rintro ⟨h, rfl⟩
      exact ⟨rfl, h⟩
    · rintro ⟨rfl, h⟩
      exact ⟨h, rfl⟩

/-- What an application does to a budget as a whole: the limits and the depth stay, and steps are
taken while there are any. -/
structure Frame (b b' : Budget) : Prop where
  limits : b'.limits = b.limits
  depth : b'.depth = b.depth
  le_steps : b.steps ≤ b'.steps
  steps_le : ∀ n, b.limits.maxSteps = some n → b.steps ≤ n → b'.steps ≤ n

theorem Frame.refl (b : Budget) : b.Frame b := ⟨rfl, rfl, Nat.le_refl _, fun _ _ h => h⟩

theorem Frame.trans {b b' b'' : Budget} (h : b.Frame b') (k : b'.Frame b'') : b.Frame b'' where
  limits := k.limits.trans h.limits
  depth := k.depth.trans h.depth
  le_steps := Nat.le_trans h.le_steps k.le_steps
  steps_le n hn hs := k.steps_le n (h.limits ▸ hn) (h.steps_le n hn hs)

/-- All that can come of the begin of an application. -/
theorem enter_cases (b : Budget) (offset : Nat) :
    (b.limits.Admits (b.steps+1) (b.depth+1) ∧
      b.enter offset = (.ok (), { b with steps := b.steps+1, depth := b.depth+1 })) ∨
    ∃ f steps, b.limits.Refuses (b.steps+1) (b.depth+1) offset f ∧
      b.enter offset = (.error f, { b with steps }) ∧ b.Frame { b with steps } := by
  unfold enter
  cases hs : exceeded? b.limits.maxSteps (b.steps+1) with
  | some n =>
    obtain ⟨hn, hlt⟩ := exceeded?_eq_some_iff.1 hs
    exact .inr ⟨_, _, .steps hn hlt, rfl, .refl b⟩
  | none =>
    have hs := exceeded?_eq_none_iff.1 hs
    cases hd : exceeded? b.limits.maxDepth (b.depth+1) with
    | some d =>
      obtain ⟨hd, hlt⟩ := exceeded?_eq_some_iff.1 hd
      exact .inr ⟨_, _, .depth hs hd hlt, rfl, rfl, rfl, Nat.le_succ _, fun n hn _ => hs n hn⟩
    | none => exact .inl ⟨⟨hs, exceeded?_eq_none_iff.1 hd⟩, rfl⟩

theorem enter_ok {b b' : Budget} {offset : Nat} (h : b.enter offset = (.ok (), b')) :
    b' = { b with steps := b.steps+1, depth := b.depth+1 } := by
  rcases enter_cases b offset with ⟨_, he⟩ | ⟨f, n, _, he, _⟩
  · exact congrArg Prod.snd (h.symm.trans he)
  · cases h.symm.trans he

theorem enter_error {b b' : Budget} {offset : Nat} {f : Fault}
    (h : b.enter offset = (.error f, b')) : (∃ steps, b' = { b with steps }) ∧ b.Frame b' := by
  rcases enter_cases b offset with ⟨_, he⟩ | ⟨g, n, _, he, hf⟩
  · cases h.symm.trans he
  · obtain rfl := congrArg Prod.snd (h.symm.trans he)
    exact ⟨⟨n, rfl⟩, hf⟩

theorem close_frame (b : Budget) (step : Step) : (b.close step).limits = b.limits ∧
    (b.close step).depth = b.depth-1 ∧ (b.close step).steps = b.steps := by
  unfold close
  split <;> exact ⟨rfl, rfl, rfl⟩

/-- Goes through events until an application is refused. -/
def replay : List Event → Budget → Except Fault Unit × Budget
  | [], b => (.ok (), b)
  | .opened _ c :: es, b =>
    match b.enter c.offset with
    | (.ok (), b) => replay es b
    | (.error f, b) => (.error f, b)
  | .closed _ _ step :: es, b => replay es (b.close step)

theorem replay_append_ok {es : List Event} {b b' : Budget} (h : replay es b = (.ok (), b'))
    (fs : List Event) : replay (es ++ fs) b = replay fs b' := by
  induction es generalizing b with
  | nil =>
    obtain rfl := congrArg Prod.snd h
    rfl
  | cons e es ih =>
    cases e with
    | opened r c =>
      simp only [List.cons_append, replay] at h ⊢
      split at h
      · exact ih h
      · cases h
    | closed r c step => exact ih h

theorem replay_append_error {es : List Event} {b b' : Budget} {f : Fault}
    (h : replay es b = (.error f, b')) (fs : List Event) :
    replay (es ++ fs) b = (.error f, b') := by
  induction es generalizing b with
  | nil => cases h
  | cons e es ih =>
    cases e with
    | opened r c =>
      simp only [List.cons_append, replay] at h ⊢
      split at h
      · exact ih h
      · exact h
    | closed r c step => exact ih h

theorem replay_depth {es : List Event} {b b' : Budget} (h : replay es b = (.ok (), b')) :
    b'.depth = Event.nesting b.depth es := by
  induction es generalizing b with
  | nil =>
    obtain rfl := congrArg Prod.snd h
    rfl
  | cons e es ih =>
    cases e with
    | opened r c =>
      simp only [replay] at h
      split at h
      · rename_i he
        rw [ih h, enter_ok he]
        rfl
      · cases h
    | closed r c step =>
      rw [ih h, Event.nesting, (close_frame b step).2.1]

/-- The budget behind events of which no application was refused. -/
def after (b : Budget) (es : List Event) : Budget where
  limits := b.limits
  depth := Event.nesting b.depth es
  steps := b.steps+(Event.applications b.depth es).length
  furthest := Failure.join b.furthest (Failure.furthest (Event.failures es))

theorem after_fresh_furthest (l : Limits) (es : List Event) :
    ((fresh l).after es).furthest = Failure.furthest (Event.failures es) := Failure.join_none_left _

theorem after_opened (b : Budget) (r : Rule) (c : Cursor) (es : List Event) :
    b.after (.opened r c :: es) = { b with steps := b.steps+1, depth := b.depth+1 }.after es := by
  refine Budget.ext rfl rfl ?_ rfl
  simp only [after, Event.applications, List.length_cons]
  omega

/-- To take note of a failure is to merge it into the record, though the offsets are compared in two
places. -/
theorem furthest_record (b : Budget) (f : Failure) :
    (b.record f).furthest = Failure.join b.furthest (some f) := by
  unfold record
  cases b.furthest with
  | none => rfl
  | some g =>
    refine congrArg some ?_
    by_cases hbehind : f.offset < g.offset
    · exact (if_pos hbehind).trans (Failure.merge_of_gt hbehind).symm
    · by_cases hsame : g.offset = f.offset
      · exact (if_neg hbehind).trans (if_pos hsame)
      · have hfurther : g.offset < f.offset := by omega
        exact ((if_neg hbehind).trans (if_neg hsame)).trans (Failure.merge_of_lt hfurther).symm

theorem after_closed (b : Budget) (r : Rule) (c : Cursor) (step : Step) (es : List Event) :
    b.after (.closed r c step :: es) = (b.close step).after es := by
  obtain ⟨hl, hd, hn⟩ := close_frame b step
  have hf : Failure.join b.furthest (Failure.furthest (Event.failures (.closed r c step :: es))) =
      Failure.join (b.close step).furthest (Failure.furthest (Event.failures es)) := by
    rw [← Failure.foldl_join, ← Failure.foldl_join]
    match step with
    | .ok (.failure f) =>
      change List.foldl _ (Failure.join b.furthest (some f)) _ = _
      rw [← furthest_record]
      rfl
    | .ok (.success m) => rfl
    | .error f => rfl
  simp only [after, hd, hn, hl, hf]
  rfl

/-- Either all applications among the events are admitted, or the first one that is not ends the
replay. -/
theorem replay_cases (es : List Event) (b : Budget) :
    ((∀ (i : Nat) a, (Event.applications b.depth es)[i]? = some a →
        b.limits.Admits (b.steps+i+1) a.depth) ∧
      b.replay es = (.ok (), b.after es)) ∨
    ∃ (i : Nat) (a : Application) (f : Fault), (Event.applications b.depth es)[i]? = some a ∧
      (∀ j < i, ∀ a', (Event.applications b.depth es)[j]? = some a' →
        b.limits.Admits (b.steps+j+1) a'.depth) ∧
      b.limits.Refuses (b.steps+i+1) a.depth a.cursor.offset f ∧
      ∃ b', b.replay es = (.error f, b') := by
  induction es generalizing b with
  | nil =>
    refine .inl ⟨fun i a h => absurd h (by simp [Event.applications]), ?_⟩
    simp [replay, after, Event.nesting, Event.applications, Event.failures, Failure.furthest,
      Failure.join_none_right]
  | cons e es ih =>
    cases e with
    | closed r c step =>
      have h := ih (b.close step)
      obtain ⟨hl, hd, hn⟩ := close_frame b step
      rw [hl, hd, hn] at h
      rw [after_closed]
      exact h
    | opened r c =>
      rcases enter_cases b c.offset with ⟨ha, he⟩ | ⟨f, steps, hr, he, _⟩
      · have h := ih { b with steps := b.steps+1, depth := b.depth+1 }
        have hshift (i : Nat) : b.steps+1+i+1 = b.steps+(i+1)+1 := by omega
        simp only [hshift] at h
        rw [after_opened]
        simp only [replay, he, Event.applications]
        rcases h with ⟨hall, hrep⟩ | ⟨i, a, f, hi, hbefore, hr, hrep⟩
        · refine .inl ⟨?_, hrep⟩
          intro i a' h'
          cases i with
          | zero =>
            obtain rfl := Option.some.inj h'
            exact ha
          | succ i => exact hall i a' h'
        · refine .inr ⟨i+1, a, f, hi, ?_, hr, hrep⟩
          intro j hj a' h'
          cases j with
          | zero =>
            obtain rfl := Option.some.inj h'
            exact ha
          | succ j => exact hbefore j (by omega) a' h'
      · refine .inr ⟨0, ⟨r, c, b.depth+1⟩, f, rfl, fun j hj => absurd hj (by omega), hr, ?_⟩
        exact ⟨_, by simp only [replay, he]; rfl⟩

end Budget

namespace Trace

/-- What a trace comes to on a budget. A refusal ends all applications that are open. -/
def settle (t : Trace) (b : Budget) : Applied :=
  match b.replay t.events with
  | (.ok (), b') => t.step.map (·, b')
  | (.error f, b') => some (.error f, { b' with depth := b.depth })

theorem settle_ok {t : Trace} {b b' : Budget} (h : b.replay t.events = (.ok (), b')) :
    t.settle b = t.step.map (·, b') := by
  simp [settle, h]

theorem settle_error {t : Trace} {b b' : Budget} {f : Fault}
    (h : b.replay t.events = (.error f, b')) :
    t.settle b = some (.error f, { b' with depth := b.depth }) := by
  simp [settle, h]

/-- Either no application of the trace is refused, or the first one that is makes it a fault. -/
theorem settle_cases (t : Trace) (b : Budget) :
    ((∀ (i : Nat) a, (Event.applications b.depth t.events)[i]? = some a →
        b.limits.Admits (b.steps+i+1) a.depth) ∧
      t.settle b = t.step.map (·, b.after t.events)) ∨
    ∃ (i : Nat) (a : Application) (f : Fault), (Event.applications b.depth t.events)[i]? = some a ∧
      (∀ j < i, ∀ a', (Event.applications b.depth t.events)[j]? = some a' →
        b.limits.Admits (b.steps+j+1) a'.depth) ∧
      b.limits.Refuses (b.steps+i+1) a.depth a.cursor.offset f ∧
      ∃ b', t.settle b = some (.error f, b') := by
  rcases b.replay_cases t.events with ⟨hall, hr⟩ | ⟨i, a, f, hi, hbefore, hf, b', hr⟩
  · exact .inl ⟨hall, settle_ok hr⟩
  · exact .inr ⟨i, a, f, hi, hbefore, hf, _, settle_error hr⟩

theorem settle_unbounded (t : Trace) {b : Budget} (h : b.limits = .unbounded) :
    t.settle b = t.step.map (·, b.after t.events) := by
  rcases t.settle_cases b with ⟨_, hs⟩ | ⟨i, a, f, _, _, hf, _⟩
  · exact hs
  · rw [h] at hf
    exact absurd hf Limits.not_refuses_unbounded

theorem settle_append {es : List Event} {b b' : Budget} (h : b.replay es = (.ok (), b'))
    (hd : b'.depth = b.depth) (t : Trace) :
    (⟨es ++ t.events, t.step⟩ : Trace).settle b = t.settle b' := by
  simp only [settle, Budget.replay_append_ok h, hd]

theorem settle_andThen_error {t : Trace} {b b' : Budget} {f : Fault}
    (h : b.replay t.events = (.error f, b')) (next : Outcome → Trace) :
    (t.andThen next).settle b = t.settle b := by
  unfold andThen
  split
  · rw [settle_error h, settle_error (Budget.replay_append_error h _)]
  · rfl

theorem settle_wrap {r : Rule} {c : Cursor} {b b' : Budget} (h : b.enter c.offset = (.ok (), b'))
    (t : Trace) :
    (wrap r c t).settle b = (t.settle b').map fun (step, b) => (step, b.close step) := by
  have hd : b'.depth = b.depth+1 := by rw [Budget.enter_ok h]
  simp only [settle, wrap, Budget.replay, h]
  cases hr : b'.replay t.events with
  | mk e b'' =>
    cases e with
    | error f =>
      rw [Budget.replay_append_error hr]
      simp [Budget.close, Budget.leave, hd]
    | ok =>
      rw [Budget.replay_append_ok hr]
      cases t.step with
      | none => rfl
      | some step => rfl

end Trace

theorem Plan.run_eq_settle {rules : List Rule} {apply : Rule → Cursor → Budget → Applied}
    {trace : Rule → Cursor → Trace} (h : ∀ r ∈ rules, ∀ c b, apply r c b = (trace r c).settle b)
    (hl : ∀ r c, (trace r c).Level) {p : Plan} {es : List Event}
    (hp : p.Meets (Plan.among rules) (fun _ _ => True) es) (b : Budget) :
    p.run apply b = (p.trace trace).settle b := by
  induction p generalizing es b with
  | done => rfl
  | observe => exact hp.elim
  | apply r c next ih =>
    obtain ⟨hr, _, hn⟩ := hp
    rw [Plan.run, Plan.trace, h r hr]
    cases hb : b.replay (trace r c).events with
    | mk e b' =>
      cases e with
      | error f => rw [Trace.settle_andThen_error hb, Trace.settle_error hb]
      | ok =>
        cases ht : (trace r c).step with
        | none => rw [Trace.andThen_none ht, Trace.settle_ok hb, ht]; rfl
        | some step =>
          cases step with
          | error f => rw [Trace.andThen_error ht, Trace.settle_ok hb, ht]; rfl
          | ok o =>
            have hd : b'.depth = b.depth := by
              rw [Budget.replay_depth hb, hl r c (by rw [ht]; rfl)]
            rw [Trace.andThen_ok ht, Trace.settle_append hb hd, Trace.settle_ok hb, ht]
            exact ih o (hn [] o trivial) b'

theorem Plan.run_frame {apply : Rule → Cursor → Budget → Applied}
    (h : ∀ r c b step b', apply r c b = some (step, b') → b.Frame b') (p : Plan) {b b' : Budget}
    {step : Step} (hp : p.run apply b = some (step, b')) : b.Frame b' := by
  induction p generalizing b with
  | done | observe =>
    obtain rfl := congrArg Prod.snd (Option.some.inj hp)
    exact .refl b
  | apply r c next ih =>
    rw [Plan.run] at hp
    split at hp
    · rename_i o b'' ha
      exact (h r c b _ b'' ha).trans (ih o hp)
    · rename_i f b'' ha
      obtain rfl := congrArg Prod.snd (Option.some.inj hp)
      exact h r c b _ b'' ha
    · cases hp

/-- Of any rule, also one written by hand. -/
theorem Rule.apply_frame {s : Store} {room : Nat} {r : Rule} {c : Cursor}
    {b b' : Budget} {step : Step} (h : r.apply s room c b = some (step, b')) : b.Frame b' := by
  induction room generalizing r c b step b' with
  | zero => cases h
  | succ room ih =>
    rw [Rule.apply] at h
    split at h
    · rename_i f b'' he
      obtain rfl := congrArg Prod.snd (Option.some.inj h)
      exact (Budget.enter_error he).2
    · rename_i b₁ he
      obtain ⟨⟨x, b₂⟩, hp, hx⟩ := Option.map_eq_some_iff.1 h
      have hf := Plan.run_frame (fun _ _ _ _ _ => ih) _ hp
      obtain rfl := congrArg Prod.snd hx
      obtain ⟨hl, hd, hn⟩ := Budget.close_frame b₂ x
      have hb := Budget.enter_ok he
      have ha : b.limits.Admits (b.steps+1) (b.depth+1) := by
        rcases Budget.enter_cases b c.offset with ⟨ha, _⟩ | ⟨f, n, _, hn, _⟩
        · exact ha
        · cases he.symm.trans hn
      subst hb
      refine ⟨hl.trans hf.limits, ?_, ?_, ?_⟩
      · rw [hd, hf.depth]
        rfl
      · rw [hn]
        exact Nat.le_trans (Nat.le_succ _) hf.le_steps
      · intro n hmax _
        rw [hn]
        exact hf.steps_le n hmax (ha.steps n hmax)

theorem Plan.run_meets {k : Contract} {goal : List Event → Step → Prop}
    {apply : Rule → Cursor → Budget → Applied}
    (h : ∀ r c b step b', k.pre r c → apply r c b = some (step, b') →
      step.Refused ∨ ∃ es, k.post r c es step)
    {p : Plan} {es : List Event} (hp : p.Meets k goal es) {b b' : Budget} {step : Step}
    (hrun : p.run apply b = some (step, b')) : step.Refused ∨ ∃ fs, goal fs step := by
  induction p generalizing es b with
  | done =>
    obtain rfl := congrArg Prod.fst (Option.some.inj hrun)
    exact .inr ⟨es, hp⟩
  | observe => exact hp.elim
  | apply r c next ih =>
    obtain ⟨hpre, herror, hok⟩ := hp
    rw [Plan.run] at hrun
    split at hrun
    · rename_i o b'' ha
      rcases h r c b _ b'' hpre ha with href | ⟨fs, hpost⟩
      · exact absurd href (Step.not_refused_ok o)
      · exact ih o (hok fs o hpost) hrun
    · rename_i f b'' ha
      obtain rfl := congrArg Prod.fst (Option.some.inj hrun)
      rcases h r c b _ b'' hpre ha with href | ⟨fs, hpost⟩
      · exact .inl href
      · exact .inr ⟨_, herror fs f hpost⟩
    · cases hrun

/-- A contract that each rule keeps on the strength of the others' is kept by whatever no limit
refused. -/
theorem Rule.apply_meets {s : Store} {k : Contract}
    (h : ∀ r c, k.pre r c → (r.plan s c).Meets k (fun _ step => ∃ es, k.post r c es step) [])
    {room : Nat} {r : Rule} {c : Cursor} {b b' : Budget} {step : Step} (hr : k.pre r c)
    (happly : r.apply s room c b = some (step, b')) : step.Refused ∨ ∃ es, k.post r c es step := by
  induction room generalizing r c b step b' with
  | zero => cases happly
  | succ room ih =>
    rw [Rule.apply] at happly
    rcases Budget.enter_cases b c.offset with ⟨_, he⟩ | ⟨f, n, hf, he, _⟩
    · rw [he] at happly
      obtain ⟨⟨x, b₂⟩, hrun, hx⟩ := Option.map_eq_some_iff.1 happly
      obtain rfl := congrArg Prod.fst hx
      rcases Plan.run_meets (fun r c b step b' => ih) (h r c hr) hrun with href | ⟨_, hpost⟩
      · exact .inl href
      · exact .inr hpost
    · rw [he] at happly
      obtain rfl := congrArg Prod.fst (Option.some.inj happly)
      exact .inl hf.refused

/-- The account of a composed rule is kept by its events alone. -/
theorem Rule.Composed.apply_eq_settle {s : Store} (hs : s.Composed) {r : Rule} (hr : r.Composed)
    (room : Nat) (c : Cursor) (b : Budget) :
    r.apply s room c b = (r.trace s room c).settle b := by
  induction room generalizing r c b with
  | zero => rfl
  | succ room ih =>
    rw [Rule.apply]
    cases he : b.enter c.offset with
    | mk e b' =>
      cases e with
      | error f =>
        obtain ⟨⟨steps, rfl⟩, _⟩ := Budget.enter_error he
        have hrep : b.replay (r.trace s (room+1) c).events = (.error f, { b with steps }) := by
          simp only [Rule.trace, Trace.wrap, Budget.replay, he]
        rw [Trace.settle_error hrep]
      | ok =>
        rw [Rule.trace, Trace.settle_wrap he]
        dsimp only
        rw [Plan.run_eq_settle (fun r' hr' c b => ih (hr.callee hs hr') c b)
          (Rule.trace_level s room) (hr.plan_among c []) b']

/-- An application that no limit refused comes to what its trace does, and the budget has gone
through all of it. -/
theorem Rule.Composed.apply_not_refused {s : Store} (hs : s.Composed) {r : Rule} (hr : r.Composed)
    {room : Nat} {c : Cursor} {b b' : Budget} {step : Step}
    (h : r.apply s room c b = some (step, b')) (hn : ¬ step.Refused) :
    (r.trace s room c).step = some step ∧ b' = b.after (r.trace s room c).events := by
  rw [hr.apply_eq_settle hs] at h
  rcases (r.trace s room c).settle_cases b with ⟨_, hset⟩ | ⟨i, a, f, _, _, hf, b'', hset⟩
  · rw [hset] at h
    obtain ⟨x, hx, hxs⟩ := Option.map_eq_some_iff.1 h
    obtain ⟨rfl, rfl⟩ := Prod.mk.inj hxs
    exact ⟨hx, rfl⟩
  · obtain rfl := congrArg Prod.fst (Option.some.inj (hset.symm.trans h))
    exact absurd hf.refused hn

end Descent
