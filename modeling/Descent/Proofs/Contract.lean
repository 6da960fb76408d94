import Descent.Proofs.Trace

namespace Descent

/-- What an application is asked for, by its rule and cursor, and what its events and its step
answer to. -/
structure Contract where
  pre : Rule → Cursor → Prop
  post : Rule → Cursor → List Event → Step → Prop

namespace Contract

/-- Both contracts at once. -/
def and (k l : Contract) : Contract where
  pre r c := k.pre r c ∧ l.pre r c
  post r c es step := k.post r c es step ∧ l.post r c es step

/-- Asks applications for `pre`, and tells nothing of what they come to. -/
def asking (pre : Rule → Cursor → Prop) : Contract := ⟨pre, fun _ _ _ _ => True⟩

end Contract

namespace Plan

/-- Behind the events `es`, all applications of the plan are made as the contract `k` asks; if they
keep it, the plan ends as in `goal`. -/
def Meets (k : Contract) (goal : List Event → Step → Prop) : Plan → List Event → Prop
  | .done step, es => goal es step
  | .observe _, _ => False
  | .apply r c next, es => k.pre r c ∧
    (∀ fs f, k.post r c fs (.error f) → goal (es ++ fs) (.error f)) ∧
    ∀ fs o, k.post r c fs (.ok o) → (next o).Meets k goal (es ++ fs)

theorem Meets.and {k l : Contract} {goal aim : List Event → Step → Prop} {p : Plan}
    {es : List Event} (h : p.Meets k goal es) (g : p.Meets l aim es) :
    p.Meets (k.and l) (fun es step => goal es step ∧ aim es step) es := by
  induction p generalizing es with
  | done => exact ⟨h, g⟩
  | observe => exact h
  | apply r c next ih =>
    refine ⟨⟨h.1, g.1⟩, ?_, ?_⟩
    · intro fs f hf
      exact ⟨h.2.1 fs f hf.1, g.2.1 fs f hf.2⟩
    · intro fs o ho
      exact ih o (h.2.2 fs o ho.1) (g.2.2 fs o ho.2)

theorem Meets.mono {k l : Contract} {goal aim : List Event → Step → Prop} {p : Plan}
    {es : List Event} (h : p.Meets k goal es) (hpre : ∀ r c, k.pre r c → l.pre r c)
    (hpost : ∀ r c es step, l.post r c es step → k.post r c es step)
    (hgoal : ∀ es step, goal es step → aim es step) : p.Meets l aim es := by
  induction p generalizing es with
  | done => exact hgoal _ _ h
  | observe => exact h
  | apply r c next ih =>
    refine ⟨hpre r c h.1, ?_, ?_⟩
    · intro fs f hf
      exact hgoal _ _ (h.2.1 fs f (hpost r c fs _ hf))
    · intro fs o ho
      exact ih o (h.2.2 fs o (hpost r c fs _ ho))

theorem Meets.behind {k : Contract} {goal : List Event → Step → Prop} {p : Plan}
    {es fs : List Event} (h : p.Meets k goal (es ++ fs)) :
    p.Meets k (fun fs step => goal (es ++ fs) step) fs := by
  induction p generalizing fs with
  | done => exact h
  | observe => exact h
  | apply r c next ih =>
    obtain ⟨hpre, herror, hok⟩ := h
    refine ⟨hpre, ?_, fun gs o ho => ih o ?_⟩
    · intro gs f hf
      have hgoal := herror gs f hf
      rwa [List.append_assoc] at hgoal
    · have hnext := hok gs o ho
      rwa [List.append_assoc] at hnext

/-- The contract lets a plan apply `r` at `d` behind the events `es`. A fault of it is as in `goal`,
and with a match and with a failure go `hit` and `miss`. -/
structure Call (k : Contract) (goal : List Event → Step → Prop) (r : Rule) (d : Cursor)
    (es : List Event) (hit : Match → List Event → Prop) (miss : Failure → List Event → Prop) :
    Prop where
  pre : k.pre r d
  error : ∀ fs f, k.post r d fs (.error f) → goal (es ++ fs) (.error f)
  success : ∀ fs m, k.post r d fs (.ok (.success m)) → hit m (es ++ fs)
  failure : ∀ fs f, k.post r d fs (.ok (.failure f)) → miss f (es ++ fs)

section

variable {k : Contract} {goal : List Event → Step → Prop} {r : Rule} {c d : Cursor}
  {es : List Event} {hit : Match → List Event → Prop} {miss : Failure → List Event → Prop}

theorem Call.mono {hit' : Match → List Event → Prop} {miss' : Failure → List Event → Prop}
    (h : Call k goal r d es hit miss) (hhit : ∀ m fs, hit m fs → hit' m fs)
    (hmiss : ∀ f fs, miss f fs → miss' f fs) : Call k goal r d es hit' miss' where
  pre := h.pre
  error := h.error
  success fs m hm := hhit m _ (h.success fs m hm)
  failure fs f hf := hmiss f _ (h.failure fs f hf)

theorem Call.apply (h : Call k goal r d es hit miss) {next : Outcome → Plan}
    (hhit : ∀ m fs, hit m fs → (next (.success m)).Meets k goal fs)
    (hmiss : ∀ f fs, miss f fs → (next (.failure f)).Meets k goal fs) :
    (Plan.apply r d next).Meets k goal es := by
  refine ⟨h.pre, h.error, ?_⟩
  intro fs o ho
  cases o with
  | success m => exact hhit m _ (h.success fs m ho)
  | failure f => exact hmiss f _ (h.failure fs f ho)

theorem Call.require (h : Call k goal r d es hit fun f fs => goal fs (.ok (.failure f)))
    {next : Match → Plan} (hhit : ∀ m fs, hit m fs → (next m).Meets k goal fs) :
    (require r d next).Meets k goal es := h.apply hhit fun _ _ hf => hf

theorem Call.forward
    (h : Call k goal r d es (fun m fs => goal fs (.ok (.success m)))
      fun f fs => goal fs (.ok (.failure f))) :
    (forward r d).Meets k goal es :=
  h.apply (fun _ _ hm => hm) fun _ _ hf => hf

theorem choice_meets {I : Failure → List Event → Prop} {rs : List Rule}
    (h : ∀ r ∈ rs, ∀ f es, I f es →
      Call k goal r c es (fun m fs => goal fs (.ok (.success m))) fun g fs => I (f.adopt g) fs)
    (hend : ∀ f es, I f es → goal es (.ok (.failure f))) {f : Failure} (hI : I f es) :
    (choice c f rs).Meets k goal es := by
  induction rs generalizing f es with
  | nil => exact hend f es hI
  | cons r rs ih =>
    refine (h r List.mem_cons_self f es hI).apply (fun _ _ hm => hm) fun g fs hg => ?_
    exact ih (fun r hr => h r (List.mem_cons_of_mem _ hr)) hg

theorem sequence_meets {I : List Value → Cursor → List Event → Prop} {start : Cursor}
    {rs : List Rule} (h : ∀ r ∈ rs, ∀ values d es, I values d es →
      Call k goal r d es (fun m fs => I (m.value.collect values) m.rest fs)
        fun f fs => goal fs (.ok (.failure f)))
    (hend : ∀ values d es, I values d es → (gather values start d).Meets k goal es)
    {values : List Value} (hI : I values d es) : (sequence start values d rs).Meets k goal es := by
  induction rs generalizing values d es with
  | nil => exact hend values d es hI
  | cons r rs ih =>
    refine (h r List.mem_cons_self values d es hI).require fun m fs hm => ?_
    exact ih (fun r hr => h r (List.mem_cons_of_mem _ hr)) hm

theorem repeated_meets {I : List Value → Cursor → List Event → Prop} {start : Cursor}
    (h : ∀ values d es, I values d es → Call k goal r d es
      (fun m fs => (gather values start d).Meets k goal fs ∧
        (d.offset < m.rest.offset → I (m.value.collect values) m.rest fs))
      fun _ fs => (gather values start d).Meets k goal fs)
    (turns : Nat) {values : List Value} (hI : I values d es) :
    (repeated r start turns values d).Meets k goal es := by
  induction turns generalizing values d es with
  | zero => exact (h values d es hI).apply (fun _ _ hm => hm.1) fun _ _ hf => hf
  | succ turns ih =>
    refine (h values d es hI).apply (fun m fs hm => ?_) fun _ _ hf => hf
    dsimp only
    split
    · exact hm.1
    · exact ih (hm.2 (by omega))

theorem elements_meets {I : List Value → Cursor → List Event → Prop} {delimiter : Rule}
    {trailing : Bool} {start : Cursor}
    (h : ∀ values d es, I values d es → Call k goal delimiter d es
      (fun m fs => Call k goal r m.rest fs
        (fun n gs => (gather values start d).Meets k goal gs ∧
          (d.offset < n.rest.offset → I (n.value.collect values) n.rest gs))
        fun _ gs => (gather values start (if trailing then m.rest else d)).Meets k goal gs)
      fun _ fs => (gather values start d).Meets k goal fs)
    (turns : Nat) {values : List Value} (hI : I values d es) :
    (elements r delimiter trailing start turns values d).Meets k goal es := by
  -- What a round goes on with matters only behind an element that advances.
  have hround {next : List Value → Cursor → Plan} {values : List Value} {d : Cursor}
      {es : List Event}
      (hI : I values d es) (hn : ∀ values' e fs, (gather values start d).Meets k goal fs →
        I values' e fs → (next values' e).Meets k goal fs) :
      (round r delimiter trailing start next values d).Meets k goal es := by
    refine (h values d es hI).apply (fun m fs hm => ?_) fun _ _ hf => hf
    refine hm.apply (fun n gs hg => ?_) fun _ _ hf => hf
    dsimp only
    split
    · exact hg.1
    · exact hn _ _ gs hg.1 (hg.2 (by omega))
  induction turns generalizing values d es with
  | zero =>
    rw [elements]
    exact hround hI fun _ _ _ hgather _ => hgather
  | succ turns ih =>
    rw [elements]
    exact hround hI fun _ _ _ _ hI' => ih hI'

end

end Plan

/-- All applications of a trace are made as the contract asks, those that are over keep it, and what
the trace comes to is as in `goal`. -/
structure Trace.Keeps (k : Contract) (goal : List Event → Step → Prop) (t : Trace) : Prop where
  opened : ∀ r c, .opened r c ∈ t.events → k.pre r c
  closed : ∀ r c step, .closed r c step ∈ t.events → k.pre r c ∧ ∃ es, k.post r c es step
  step : ∀ step, t.step = some step → goal t.events step

theorem Plan.trace_keeps {k : Contract} {goal : List Event → Step → Prop}
    {apply : Rule → Cursor → Trace}
    (h : ∀ r c, k.pre r c → (apply r c).Keeps k (k.post r c)) {p : Plan} {es : List Event}
    (hp : p.Meets k goal es) :
    (p.trace apply).Keeps k fun fs step => goal (es ++ fs) step := by
  induction p generalizing es with
  | done step =>
    refine ⟨fun _ _ hm => absurd hm List.not_mem_nil, fun _ _ _ hm => absurd hm List.not_mem_nil,
      ?_⟩
    intro x hx
    obtain rfl := Option.some.inj hx
    change goal (es ++ []) step
    rw [List.append_nil]
    exact hp
  | observe => exact hp.elim
  | apply r c next ih =>
    obtain ⟨hpre, herror, hok⟩ := hp
    have ha := h r c hpre
    rw [Plan.trace]
    cases ht : (apply r c).step with
    | none =>
      rw [Trace.andThen_none ht]
      exact ⟨ha.opened, ha.closed, fun step hs => by rw [ht] at hs; cases hs⟩
    | some step =>
      cases step with
      | error f =>
        rw [Trace.andThen_error ht]
        refine ⟨ha.opened, ha.closed, ?_⟩
        intro step hs
        obtain rfl := Option.some.inj (ht.symm.trans hs)
        exact herror _ f (ha.step _ ht)
      | ok o =>
        rw [Trace.andThen_ok ht]
        have hn := ih o (hok _ o (ha.step _ ht))
        refine ⟨?_, ?_, ?_⟩
        · intro r' c' hm
          exact (List.mem_append.1 hm).elim (ha.opened r' c') (hn.opened r' c')
        · intro r' c' step hm
          exact (List.mem_append.1 hm).elim (ha.closed r' c' step) (hn.closed r' c' step)
        · intro step hs
          simpa only [List.append_assoc] using hn.step step hs

/-- The rule of recursion: what each rule makes of kept contracts is kept wherever rules apply one
another. -/
theorem Rule.trace_keeps {s : Store} {k : Contract}
    (h : ∀ r c, k.pre r c → (r.plan s c).Meets k
      (fun es step => k.post r c (.opened r c :: (es ++ [.closed r c step])) step) [])
    (room : Nat) {r : Rule} {c : Cursor} (hr : k.pre r c) :
    (r.trace s room c).Keeps k (k.post r c) := by
  induction room generalizing r c with
  | zero =>
    exact ⟨fun _ _ hm => absurd hm List.not_mem_nil, fun _ _ _ hm => absurd hm List.not_mem_nil,
      fun step hs => by cases hs⟩
  | succ room ih =>
    have hp := Plan.trace_keeps (fun r c => ih) (h r c hr)
    have hpost : ∀ step, ((r.plan s c).trace (Rule.trace s room)).step = some step →
        k.post r c (r.trace s (room+1) c).events step := by
      intro step hs
      have := hp.step step hs
      simpa [Rule.trace, Trace.wrap, hs] using this
    refine ⟨?_, ?_, hpost⟩
    · intro r' c' hm
      simp only [Rule.trace, Trace.wrap, List.mem_cons, List.mem_append, Option.mem_toList,
        Option.map_eq_some_iff] at hm
      rcases hm with hm | hm | ⟨_, _, hm⟩
      · cases hm
        exact hr
      · exact hp.opened r' c' hm
      · cases hm
    · intro r' c' step hm
      simp only [Rule.trace, Trace.wrap, List.mem_cons, List.mem_append, Option.mem_toList,
        Option.map_eq_some_iff] at hm
      rcases hm with hm | hm | ⟨step', hs, hm⟩
      · cases hm
      · exact hp.closed r' c' step hm
      · cases hm
        exact ⟨hr, _, hpost step hs⟩

end Descent
