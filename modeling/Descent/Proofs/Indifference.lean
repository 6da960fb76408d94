import Descent.Proofs.ErrorPosition
import Descent.Proofs.Evaluation
import Descent.Proofs.Faults
import Descent.Proofs.Skeleton

namespace Descent

/-- Where the step says that matching stopped. -/
def Step.failedAt? : Step → Option Nat
  | .ok (.failure f) => some f.offset
  | _ => none

theorem Step.Alike.failedAt? {k : Peel} {step step' : Step} (h : step.Alike k step') :
    step'.failedAt? = step.failedAt? := by
  cases h with
  | error f => rfl
  | ok h =>
    cases h with
    | success h => rfl
    | failure h => exact congrArg some h

namespace Event

theorem furthestOffset?_append (es fs : List Event) :
    furthestOffset? (es ++ fs) = Option.merge max (furthestOffset? es) (furthestOffset? fs) := by
  have hfurthest (es : List Event) :
      furthestOffset? es = (Failure.furthest (failures es)).map Failure.offset :=
    (Failure.offset_furthest _).symm
  rw [hfurthest, hfurthest, hfurthest, failures_append, Failure.furthest_append]
  cases Failure.furthest (failures es) with
  | none =>
    rw [Failure.join_none_left]
    exact (Option.merge_none_left).symm
  | some f =>
    cases Failure.furthest (failures fs) with
    | none => rfl
    | some g => exact congrArg some (Failure.offset_merge f g)

theorem furthestOffset?_wrap {t : Trace} {step : Step} (h : t.step = some step) (r : Rule)
    (c : Cursor) :
    furthestOffset? (t.wrap r c).events =
      Option.merge max (furthestOffset? t.events) step.failedAt? := by
  have hopened : furthestOffset? (t.wrap r c).events =
      furthestOffset? (t.events ++ [.closed r c step]) := by
    rw [Trace.wrap, h]
    rfl
  have hclosed : furthestOffset? [.closed r c step] = step.failedAt? := by
    cases step with
    | error => rfl
    | ok o => cases o <;> rfl
  rw [hopened, furthestOffset?_append, hclosed]

end Event

namespace Trace

/-- If `t` is over and no transform that is taken off has refused a value, so is `t'`, and it comes
to the same. -/
def Follows (k : Peel) (t t' : Trace) : Prop :=
  ∀ step, t.step = some step → step.Spoiled k ∨ ∃ step', t'.step = some step' ∧ step.Alike k step' ∧
    Event.furthestOffset? t'.events = Event.furthestOffset? t.events

variable {k : Peel} {t t' : Trace}

theorem Follows.grows {u : Trace} (h : t.Follows k t') (hg : t'.Grows u) : t.Follows k u := by
  intro step hstep
  refine (h step hstep).imp id ?_
  rintro ⟨step', hstep', halike⟩
  rw [hg.2 step' hstep']
  exact ⟨step', hstep', halike⟩

theorem Follows.wrap (h : t.Follows k t') (r r' : Rule) (c : Cursor) :
    (t.wrap r c).Follows k (t'.wrap r' c) := by
  intro step hstep
  rw [wrap_step] at hstep
  refine (h step hstep).imp id ?_
  rintro ⟨step', hstep', halike, hfurthest⟩
  refine ⟨step', hstep', halike, ?_⟩
  rw [Event.furthestOffset?_wrap hstep', Event.furthestOffset?_wrap hstep, hfurthest,
    halike.failedAt?]

theorem not_spoiled_ok (o : Outcome) : ¬ Step.Spoiled k (.ok o) := by
  rintro ⟨_, f, hf, _⟩
  cases hf

theorem Follows.andThen (h : t.Follows k t') {f g : Outcome → Trace}
    (hn : ∀ o o', o.Alike k o' → (f o).Follows k (g o')) :
    (t.andThen f).Follows k (t'.andThen g) := by
  intro step hstep
  rcases andThen_cases hstep with ⟨e, ht, rfl, hsame⟩ | ⟨o, ht, hnext⟩
  · rw [hsame]
    refine (h _ ht).imp id ?_
    rintro ⟨step', ht', halike, hfurthest⟩
    cases halike
    rw [andThen_error ht']
    exact ⟨_, ht', .error e, hfurthest⟩
  · obtain ⟨step', ht', halike, hfurthest⟩ := (h _ ht).resolve_left (not_spoiled_ok o)
    obtain ⟨halike⟩ := halike
    rename_i o'
    rw [andThen_ok ht, andThen_ok ht']
    refine (hn o o' halike step hnext).imp id ?_
    rintro ⟨step', hstep', halike, hnext⟩
    refine ⟨step', hstep', halike, ?_⟩
    rw [Event.furthestOffset?_append, Event.furthestOffset?_append, hfurthest, hnext]

end Trace

theorem Plan.Alike.follows {k : Peel} {apply apply' : Rule → Cursor → Trace}
    (h : ∀ r c, r.Composed → (apply r c).Follows k (apply' (r.peel k) c)) {p p' : Plan}
    (hp : p.Alike k p') :
    (p.trace apply).Follows k (p'.trace apply') := by
  induction hp with
  | done halike =>
    intro step hstep
    obtain rfl := Option.some.inj hstep
    exact .inr ⟨_, rfl, halike, rfl⟩
  | apply hr _ ih => exact (h _ _ hr).andThen ih

/-- A fault of a plan that raises none itself is one of a rule that it applies. -/
theorem Plan.quiet_trace {apply : Rule → Cursor → Trace} {rules : List Rule} {p : Plan}
    {es : List Event} {f : Fault} (hq : p.Quiet) (hp : p.Meets (among rules) (fun _ _ => True) es)
    (h : (p.trace apply).step = some (.error f)) :
    ∃ r ∈ rules, ∃ c, (apply r c).step = some (.error f) := by
  induction p generalizing es with
  | done step => exact absurd (Option.some.inj h) (hq f)
  | observe => exact hq.elim
  | apply r c next ih =>
    obtain ⟨hr, _, hok⟩ := hp
    rcases Trace.andThen_cases h with ⟨g, hstep, hg, _⟩ | ⟨o, _, hnext⟩
    · cases hg
      exact ⟨r, hr, c, hstep⟩
    · exact ih o (hq o) (hok [] o trivial) hnext

namespace Rule

variable {s : Store} {r : Rule} {k : Peel} {c : Cursor} {room : Nat}

theorem closed_mem_trace {step : Step} (h : (r.trace s room c).step = some step) :
    .closed r c step ∈ (r.trace s room c).events := by
  cases room with
  | zero => cases h
  | succ room =>
    rw [trace, Trace.wrap_step] at h
    simp [trace, Trace.wrap, h]

/-- What the rule around adds to the record of the rule inside is there already. -/
theorem furthestOffset?_around {q : Rule} {step last : Step}
    (h : (q.trace s room c).step = some step) (hlast : last.Alike k step) :
    Event.furthestOffset? (Trace.wrap r c ⟨(q.trace s room c).events, some last⟩).events =
      Event.furthestOffset? (q.trace s room c).events := by
  rw [Event.furthestOffset?_wrap rfl, ← hlast.failedAt?]
  match step with
  | .error f | .ok (.success m) => exact Option.merge_none_right
  | .ok (.failure f) =>
    obtain ⟨n, hn, hle⟩ :=
      Event.furthestOffset?_isSome (Event.mem_failures.2 ⟨q, c, closed_mem_trace h⟩)
    rw [hn]
    exact congrArg some (Nat.max_eq_left hle)

/-- A rule that is taken off does what the rule inside does, and comes to the same but for what is
taken off. -/
theorem trace_inside {q : Rule} (hk : r.inside? k = some q) {step : Step}
    (h : (q.trace s room c).step = some step) :
    ∃ last, r.trace s (room+1) c = .wrap r c ⟨(q.trace s room c).events, some last⟩ ∧
      (last.Spoiled k ∨ last.Alike k step) := by
  obtain ⟨next, hplan, hnext⟩ := plan_inside hk s c
  rw [trace, hplan, Plan.trace]
  cases step with
  | error f =>
    rw [Trace.andThen_error h]
    exact ⟨.error f, congrArg (Trace.wrap r c) (Trace.ext rfl h), .inr (.error f)⟩
  | ok o =>
    obtain ⟨last, hdone, hlast⟩ := hnext o
    rw [Trace.andThen_ok h, hdone, Plan.trace, List.append_nil]
    exact ⟨last, rfl, hlast⟩

theorem trace_inside_none {q : Rule} (hk : r.inside? k = some q)
    (h : (q.trace s room c).step = none) : (r.trace s (room+1) c).step = none := by
  obtain ⟨next, hplan, _⟩ := plan_inside hk s c
  rw [trace, hplan, Plan.trace, Trace.andThen_none h]
  exact h

/-- What is left of a rule that is over comes to the same. -/
theorem Composed.trace_follows (hs : s.Composed) (hr : r.Composed) (k : Peel) (room : Nat)
    (c : Cursor) : (r.trace s room c).Follows k ((r.peel k).trace (s.peel k) room c) := by
  induction room generalizing r c with
  | zero => exact fun step hstep => nomatch hstep
  | succ room ih =>
    cases hk : r.inside? k with
    | none =>
      exact (Plan.Alike.follows (fun q d hq => ih hq d) (hr.plan_alike hs hk c)).wrap r (r.peel k) c
    | some q =>
      obtain ⟨hchild, hpeel⟩ := inside?_child hk
      have hq := hr.part (mem_parts_of_child hchild q.self_mem_parts)
      have hinside := (ih hq c).grows (trace_succ_grows (s.peel k) room (q.peel k) c)
      intro step hstep
      cases hinner : (q.trace s room c).step with
      | none => cases hstep.symm.trans (trace_inside_none hk hinner)
      | some inner =>
        obtain ⟨last, htrace, hlast⟩ := trace_inside hk hinner
        rw [htrace] at hstep ⊢
        obtain rfl := Option.some.inj hstep
        rcases hlast with hspoiled | hlast
        · exact .inl hspoiled
        · refine (hinside inner hinner).imp hlast.spoiled ?_
          rintro ⟨step', hstep', halike, hfurthest⟩
          rw [hpeel, furthestOffset?_around hinner hlast]
          exact ⟨step', hstep', hlast.trans halike, hfurthest⟩

/-- A plan is over in some room if what is left of it is, and the rules that it applies are. -/
theorem ended_of_alike (hs : s.Composed) {p p' : Plan} (hp : p.Alike k p')
    (ih : ∀ (q : Rule) (d : Cursor), q.Composed → ((q.peel k).trace (s.peel k) room d).step.isSome →
      ∃ room', (q.trace s room' d).step.isSome)
    (h : (p'.trace (Rule.trace (s.peel k) room)).step.isSome) :
    ∃ room', (p.trace (Rule.trace s room')).step.isSome := by
  induction hp with
  | done => exact ⟨0, rfl⟩
  | @apply q d next next' hq _ ihnext =>
    obtain ⟨last', hlast'⟩ := Option.isSome_iff_exists.1 h
    have ht' : ∃ step', ((q.peel k).trace (s.peel k) room d).step = some step' := by
      rcases Trace.andThen_cases hlast' with ⟨f, ht', _⟩ | ⟨o, ht', _⟩
      · exact ⟨_, ht'⟩
      · exact ⟨_, ht'⟩
    obtain ⟨step', ht'⟩ := ht'
    obtain ⟨room₁, hroom₁⟩ := ih q d hq (by rw [ht']; rfl)
    obtain ⟨step, ht⟩ := Option.isSome_iff_exists.1 hroom₁
    cases step with
    | error f =>
      refine ⟨room₁, ?_⟩
      rw [Plan.trace, Trace.andThen_error ht]
      exact hroom₁
    | ok o =>
      obtain ⟨step'', hstep'', halike, _⟩ :=
        (hq.trace_follows hs k room₁ d _ ht).resolve_left (Trace.not_spoiled_ok o)
      -- What is left of the rule comes to one step in all rooms that are enough.
      obtain ⟨rfl, _⟩ := (evaluates_of_trace ht').unique (evaluates_of_trace hstep'')
      obtain ⟨halike⟩ := halike
      rw [Plan.trace, Trace.andThen_ok ht'] at h
      obtain ⟨room₂, hroom₂⟩ := ihnext o _ halike h
      refine ⟨max room₁ room₂, ?_⟩
      have hq := (trace_grows s (Nat.le_max_left room₁ room₂) q d).2 _ ht
      obtain ⟨last, hlast⟩ := Option.isSome_iff_exists.1 hroom₂
      have hnext := (Plan.trace_grows (fun q d => trace_grows s (Nat.le_max_right room₁ room₂) q d)
          (next o)).2 _ hlast
      rw [Plan.trace, hq, Trace.andThen_ok ht, hnext]
      exact hroom₂

/-- A rule is over in some room if what is left of it is. -/
theorem Composed.trace_of_peel (hs : s.Composed) (hr : r.Composed)
    (h : ((r.peel k).trace (s.peel k) room c).step.isSome) :
    ∃ room', (r.trace s room' c).step.isSome := by
  induction room generalizing r c with
  | zero => cases h
  | succ room ih =>
    induction r using childInduction with
    | h r ihr =>
      cases hk : r.inside? k with
      | none =>
        obtain ⟨room', hroom'⟩ := ended_of_alike hs (hr.plan_alike hs hk c) (fun _ _ => ih) h
        exact ⟨room'+1, hroom'⟩
      | some q =>
        obtain ⟨hchild, hpeel⟩ := inside?_child hk
        rw [hpeel] at h
        obtain ⟨room', hroom'⟩ :=
          ihr q hchild (hr.part (mem_parts_of_child hchild q.self_mem_parts)) h
        obtain ⟨step, hstep⟩ := Option.isSome_iff_exists.1 hroom'
        obtain ⟨last, htrace, _⟩ := trace_inside hk hstep
        refine ⟨room'+1, ?_⟩
        rw [htrace]
        rfl

/-- Evaluated at `c` without limits, the rule comes to a transform that refuses a value. -/
def Refuses (s : Store) (r : Rule) (c : Cursor) : Prop :=
  ∃ f es, r.Evaluates s c (.error f) es ∧ f.kind = .transform

/-- Without limits, a fault is of a rule that is bound to nothing, or of a transform that refuses
some value. -/
theorem Composed.trace_fault (hs : s.Composed) (hr : r.Composed) {f : Fault}
    (h : (r.trace s room c).step = some (.error f)) :
    f.kind = .unboundRule ∨ f.kind = .transform ∧
      ∃ q t v e, .mapped q t ∈ r.reach s ∧ t v = .error e := by
  suffices hreach : ∀ q ∈ r.reach s, (q.trace s room c).step = some (.error f) →
      f.kind = .unboundRule ∨ f.kind = .transform ∧
        ∃ q t v e, .mapped q t ∈ r.reach s ∧ t v = .error e from
    hreach r (self_mem_reach s r) h
  clear h
  induction room generalizing c with
  | zero => exact fun q _ h => nomatch h
  | succ room ih =>
    intro q hq h
    rw [trace, Trace.wrap_step] at h
    rcases (hr.reach hs hq).plan_quiet (s := s) with ⟨p, t, rfl, hp⟩ | ⟨name, hname⟩ | ⟨_, hquiet⟩
    · rw [plan, Plan.mapped, Plan.trace_require] at h
      rcases Trace.andThen_cases h with ⟨g, hstep, hg, _⟩ | ⟨o, _, hnext⟩
      · cases hg
        exact ih p (callee_mem_reach hq List.mem_cons_self) hstep
      · cases o with
        | failure => cases hnext
        | success m =>
          dsimp only at hnext
          cases ht : t m.value with
          | ok v =>
            rw [ht] at hnext
            cases hnext
          | error e =>
            rw [ht] at hnext
            cases hnext
            exact .inr ⟨rfl, p, t, m.value, e, hq, ht⟩
    · rw [plan_unbound hname] at h
      cases h
      exact .inl rfl
    · obtain ⟨p, hp, d, hstep⟩ := Plan.quiet_trace (hquiet c) ((hr.reach hs hq).plan_among c []) h
      exact ih p (callee_mem_reach hq hp) hstep

theorem Composed.evaluates_peel (hs : s.Composed) (hr : r.Composed)
    (hk : k = .labels ∨ ¬ r.Refuses s c) {step : Step} {es : List Event}
    (h : r.Evaluates s c step es) :
    ∃ step' es', (r.peel k).Evaluates (s.peel k) c step' es' ∧ step.Alike k step' ∧
      Event.furthestOffset? es' = Event.furthestOffset? es := by
  obtain ⟨room, hroom⟩ := h
  rcases hr.trace_follows hs k room c step (by rw [hroom]) with
    hspoiled | ⟨step', hstep', halike, hfurthest⟩
  · obtain ⟨rfl, f, rfl, hf⟩ := hspoiled
    exact absurd ⟨f, es, ⟨room, hroom⟩, hf⟩ (hk.resolve_left (by decide))
  · rw [hroom] at hfurthest
    exact ⟨step', _, evaluates_of_trace hstep', halike, hfurthest⟩

theorem Composed.evaluates_of_peel (hs : s.Composed) (hr : r.Composed) {step' : Step}
    {es' : List Event} (h : (r.peel k).Evaluates (s.peel k) c step' es') :
    ∃ step es, r.Evaluates s c step es := by
  obtain ⟨room, hroom⟩ := h
  have hended : ((r.peel k).trace (s.peel k) room c).step.isSome := by
    rw [hroom]
    rfl
  obtain ⟨room', hroom'⟩ := hr.trace_of_peel hs hended
  obtain ⟨step, hstep⟩ := Option.isSome_iff_exists.1 hroom'
  exact ⟨step, _, evaluates_of_trace hstep⟩

end Rule

/-- Two reports of one kind and for one place; a fault is reported as it is. -/
inductive ParseError.SameKind : ParseError → ParseError → Prop
  | mismatch (p : Position) (expected expected' : List Expected) (found : Option String) :
    SameKind (.mismatch p expected found) (.mismatch p expected' found)
  | incomplete (p : Position) : SameKind (.incomplete p) (.incomplete p)
  | fault (p : Position) (f : Fault) : SameKind (.fault p f) (.fault p f)

/-- Two results of which both values are as `same` says, or both reports of one kind and for one
place. -/
inductive Parsed.Alike {α : Type} (same : α → α → Prop) : Parsed α → Parsed α → Prop
  | endless : Alike same none none
  | value {x x' : α} (h : same x x') : Alike same (some (.ok x)) (some (.ok x'))
  | error {e e' : ParseError} (h : e.SameKind e') : Alike same (some (.error e)) (some (.error e'))

theorem ParseError.sameKind_ofFailure (text : List Char) {f g : Failure} (h : g.offset = f.offset) :
    (ofFailure text f).SameKind (ofFailure text g) := by
  rw [ofFailure, ofFailure, h]
  exact .mismatch _ _ _ _

namespace Rule

theorem offset_deeper_congr {f f' : Failure} {g g' : Option Failure} (hf : f'.offset = f.offset)
    (hg : g'.map Failure.offset = g.map Failure.offset) :
    (deeper f' g').offset = (deeper f g).offset := by
  cases g with
  | none =>
    obtain rfl := Option.map_eq_none_iff.1 hg
    exact hf
  | some g =>
    obtain ⟨g', rfl, hoffset⟩ := Option.map_eq_some_iff.1 hg
    rw [offset_deeper, offset_deeper, hf, hoffset]

theorem complete_alike {k : Peel} (text : List Char) {m m' : Match} (hm : m.Alike k m')
    {g g' : Option Failure} (hg : g'.map Failure.offset = g.map Failure.offset) :
    Parsed.Alike (fun v v' => k = .labels → v' = v) (some (complete text m g))
      (some (complete text m' g')) := by
  have hrest := hm.rest
  by_cases hend : m.rest.atEnd
  · rw [complete_atEnd hend, complete_atEnd (hrest ▸ hend)]
    exact .value hm.value
  · by_cases hstopped : ∃ f, g = some f ∧ m.rest.offset ≤ f.offset
    · obtain ⟨f, rfl, hle⟩ := hstopped
      obtain ⟨f', rfl, hoffset⟩ := Option.map_eq_some_iff.1 hg
      rw [complete_stopped hend hle,
        complete_stopped (hrest ▸ hend) (by rw [hrest, hoffset]; exact hle)]
      exact .error (ParseError.sameKind_ofFailure text hoffset)
    · have hbefore (f : Failure) (hf : g = some f) : f.offset < m.rest.offset := by
        by_contra hle
        exact hstopped ⟨f, hf, Nat.not_lt.1 hle⟩
      have hbefore' (f' : Failure) (hf' : g' = some f') : f'.offset < m'.rest.offset := by
        rw [hf'] at hg
        obtain ⟨f, hf, hoffset⟩ := Option.map_eq_some_iff.1 hg.symm
        rw [hrest, ← hoffset]
        exact hbefore f hf
      rw [complete_leftover hend hbefore, complete_leftover (hrest ▸ hend) hbefore', hrest]
      exact .error (.incomplete _)

variable {s : Store} {r : Rule} {k : Peel}

/-- What is told of an evaluation is told of what is left of the rule. -/
theorem Composed.parse_alike (hs : s.Composed) (hr : r.Composed) {text : String} {step step' : Step}
    {es es' : List Event} (h : r.Evaluates s (.start text.toList) step es)
    (h' : (r.peel k).Evaluates (s.peel k) (.start text.toList) step' es')
    (halike : step.Alike k step')
    (hfurthest : Event.furthestOffset? es' = Event.furthestOffset? es) :
    Parsed.Alike (fun x x' => x'.2 = x.2 ∧ (k = .labels → x'.1 = x.1))
      (r.parseWith s text .unbounded) ((r.peel k).parseWith (s.peel k) text .unbounded) ∧
    Parsed.Alike (fun v v' => k = .labels → v' = v) (r.parseAllWith s text .unbounded)
      ((r.peel k).parseAllWith (s.peel k) text .unbounded) := by
  have hs' := hs.peel k
  have hr' := hr.peel k
  have hg : (Failure.furthest (Event.failures es')).map Failure.offset =
      (Failure.furthest (Event.failures es)).map Failure.offset := by
    rw [Failure.offset_furthest, Failure.offset_furthest]
    exact hfurthest
  cases halike with
  | error f =>
    obtain ⟨hparse, hparseAll⟩ := hr.parse_of_fault hs h
    obtain ⟨hparse', hparseAll'⟩ := hr'.parse_of_fault hs' h'
    rw [hparse, hparseAll, hparse', hparseAll']
    exact ⟨.error (.fault _ f), .error (.fault _ f)⟩
  | ok halike =>
    cases halike with
    | failure hoffset =>
      obtain ⟨hparse, hparseAll⟩ := hr.parse_of_failure hs h
      obtain ⟨hparse', hparseAll'⟩ := hr'.parse_of_failure hs' h'
      have hsame := ParseError.sameKind_ofFailure text.toList (offset_deeper_congr hoffset hg)
      rw [hparse, hparseAll, hparse', hparseAll']
      exact ⟨.error hsame, .error hsame⟩
    | success hm =>
      obtain ⟨hparse, hparseAll⟩ := hr.parse_of_success hs h
      obtain ⟨hparse', hparseAll'⟩ := hr'.parse_of_success hs' h'
      rw [hparse, hparseAll, hparse', hparseAll']
      exact ⟨.value ⟨by rw [hm.rest], hm.value⟩, complete_alike text.toList hm hg⟩

/-- A rule whose transforms accept all values comes to none that refuses one. Without limits, a rule
and what is left of it without its labels come to the same, except for what failures expect; and if
no transform refuses a value on the way, so do the rule and what is left of it without all that only
shapes values, except for values. -/
theorem matching_indifferent (hs : s.Composed) (hr : r.Composed) :
    ((∀ q t, .mapped q t ∈ r.reach s → ∀ v, ∃ w, t v = .ok w) → ∀ c, ¬ r.Refuses s c) ∧
    ∀ (k : Peel) (text : String), k = .labels ∨ ¬ r.Refuses s (.start text.toList) →
      ((∀ step es, ¬ r.Evaluates s (.start text.toList) step es) ∧
          (∀ step es, ¬ (r.peel k).Evaluates (s.peel k) (.start text.toList) step es) ∨
        ∃ step es step' es', r.Evaluates s (.start text.toList) step es ∧
          (r.peel k).Evaluates (s.peel k) (.start text.toList) step' es' ∧ step.Alike k step' ∧
          ∀ f, step = .error f → f.kind = .unboundRule ∨ k = .labels ∧ f.kind = .transform) ∧
      Parsed.Alike (fun x x' => x'.2 = x.2 ∧ (k = .labels → x'.1 = x.1))
        (r.parseWith s text .unbounded) ((r.peel k).parseWith (s.peel k) text .unbounded) ∧
      Parsed.Alike (fun v v' => k = .labels → v' = v) (r.parseAllWith s text .unbounded)
        ((r.peel k).parseAllWith (s.peel k) text .unbounded) := by
  constructor
  · rintro htotal c ⟨f, es, ⟨room, hroom⟩, hf⟩
    have hstep : (r.trace s room c).step = some (.error f) := by rw [hroom]
    rcases hr.trace_fault hs hstep with hunbound | ⟨_, q, t, v, e, hq, ht⟩
    · rw [hf] at hunbound
      cases hunbound
    · obtain ⟨w, hw⟩ := htotal q t hq v
      cases hw.symm.trans ht
  · intro k text hk
    by_cases hends : ∃ step es, r.Evaluates s (.start text.toList) step es
    · obtain ⟨step, es, h⟩ := hends
      obtain ⟨step', es', h', halike, hfurthest⟩ := hr.evaluates_peel hs hk h
      refine ⟨.inr ⟨step, es, step', es', h, h', halike, ?_⟩,
        hr.parse_alike hs h h' halike hfurthest⟩
      rintro f rfl
      obtain ⟨room, hroom⟩ := h
      have hstep : (r.trace s room (.start text.toList)).step = some (.error f) := by rw [hroom]
      refine (hr.trace_fault hs hstep).imp id fun ⟨hf, _⟩ => ⟨?_, hf⟩
      exact hk.resolve_right fun hno => hno ⟨f, es, ⟨room, hroom⟩, hf⟩
    · simp only [not_exists] at hends
      have hends' (step' : Step) (es' : List Event) :
          ¬ (r.peel k).Evaluates (s.peel k) (.start text.toList) step' es' := by
        intro h'
        obtain ⟨step, es, h⟩ := hr.evaluates_of_peel hs h'
        exact hends step es h
      obtain ⟨hparse, hparseAll⟩ := parse_none (hr.run_eq_none hs hends)
      obtain ⟨hparse', hparseAll'⟩ := parse_none ((hr.peel k).run_eq_none (hs.peel k) hends')
      rw [hparse, hparseAll, hparse', hparseAll']
      exact ⟨.inl ⟨hends, hends'⟩, .endless, .endless⟩

/-- Brackets inside each other, of which only the labels or all wrappers are taken off, also in the
cell that the rule stands for; the text breaks off inside the brackets, or goes on behind them. -/
theorem matching_indifferent_nested :
    (∃ e e', parseAllWith
        ⟨[some (.choice [.enclosed (.literal "(") (.label (.handle 0) "inner") (.literal ")"),
          .mapped (.discard (.literal "a")) fun _ => .ok (.bool true)])], []⟩
        (.label (.recursive 0) "outer") "((b" .unbounded = some (.error e) ∧
      parseAllWith
        ⟨[some (.choice [.enclosed (.literal "(") (.handle 0) (.literal ")"), .literal "a"])], []⟩
        (.recursive 0) "((b" .unbounded = some (.error e') ∧ e.SameKind e') ∧
    ∃ v w, parseWith
        ⟨[some (.choice [.enclosed (.literal "(") (.label (.handle 0) "inner") (.literal ")"),
          .mapped (.discard (.literal "a")) fun _ => .ok (.bool true)])], []⟩
        (.label (.recursive 0) "outer") "((a))b" .unbounded = some (.ok v) ∧
      parseWith
        ⟨[some (.choice [.enclosed (.literal "(") (.handle 0) (.literal ")"),
          .mapped (.discard (.literal "a")) fun _ => .ok (.bool true)])], []⟩
        (.recursive 0) "((a))b" .unbounded = some (.ok w) ∧ w.2 = v.2 ∧ w.1 = v.1 := by
  obtain ⟨htotal, hparse⟩ := matching_indifferent
    (s := ⟨[some (.choice [.enclosed (.literal "(") (.label (.handle 0) "inner") (.literal ")"),
      .mapped (.discard (.literal "a")) fun _ => .ok (.bool true)])], []⟩)
    (r := .label (.recursive 0) "outer") (by decide) (by decide)
  constructor
  · have hno := htotal (fun q t hq v => ?_) (.start "((b".toList)
    · obtain ⟨_, _, halike⟩ := hparse .wrappers "((b" (.inr hno)
      cases halike with
      | error h => exact ⟨_, _, rfl, rfl, h⟩
    · have hmapped : q = .discard (.literal "a") ∧ t = fun _ => .ok (.bool true) := by
        simpa [reach, parts, partsList, Store.rules, literal] using hq
      exact ⟨.bool true, by rw [hmapped.2]⟩
  · obtain ⟨_, halike, _⟩ := hparse .labels "((a))b" (.inl rfl)
    cases halike with
    | value h => exact ⟨_, _, rfl, rfl, h.1, h.2 rfl⟩

end Rule

end Descent
