import Descent.Proofs.Chain

namespace Descent

namespace Rule

/-- The rule with a delimiter before it. -/
def led (delimiter r : Rule) : Rule := .enclosed delimiter r (literal "")

/-- An element, and the repetition of elements with a delimiter before them. -/
def folded (r delimiter : Rule) : Rule := .pair r (.repeated (led delimiter r)) (literal "")

/-- The rule with what there is of a delimiter behind it. -/
def followed (r delimiter : Rule) : Rule := .enclosed (literal "") r (.optional delimiter)

/-- What comes of a list without limits behind its last element, at `q`. -/
inductive Concludes (s : Store) (r delimiter : Rule) (trailing : Bool) (value : Value)
    (start q : Cursor) : Step → Prop
  /-- There is no delimiter. -/
  | ended {f : Failure} (h : delimiter.Comes s q (.ok (.failure f))) :
    Concludes s r delimiter trailing value start q (.ok (.success (.spanning value start q)))
  /-- There is a delimiter without an element behind it. -/
  | dangling {n : Match} {f : Failure} (hd : delimiter.Comes s q (.ok (.success n)))
    (hr : r.Comes s n.rest (.ok (.failure f))) : Concludes s r delimiter trailing value start q
      (.ok (.success (.spanning value start (if trailing then n.rest else q))))
  /-- There is an element that does not advance. -/
  | still {n m : Match} (hd : delimiter.Comes s q (.ok (.success n)))
    (hr : r.Comes s n.rest (.ok (.success m))) (h : m.rest.offset ≤ q.offset) :
    Concludes s r delimiter trailing value start q (.ok (.success (.spanning value start q)))
  | delimiter_fault {f : Fault} (h : delimiter.Comes s q (.error f)) :
    Concludes s r delimiter trailing value start q (.error f)
  | element_fault {n : Match} {f : Fault} (hd : delimiter.Comes s q (.ok (.success n)))
    (hr : r.Comes s n.rest (.error f)) : Concludes s r delimiter trailing value start q (.error f)

variable {s : Store} {r d : Rule} {c q start : Cursor} {ms : List Match} {trailing : Bool}
  {value : Value} {step : Step}

theorem Composed.led (hd : d.Composed) (hr : r.Composed) : (Rule.led d r).Composed :=
  .enclosed hd hr (.token _)

/-- A match of a list ends where its last element does, and there the delimiter was tried. -/
theorem Concludes.success {m : Match} (h : Concludes s r d false value start q (.ok (.success m))) :
    m = .spanning value start q ∧ ∃ o, d.Comes s q (.ok o) := by
  cases h with
  | ended hf => exact ⟨rfl, _, hf⟩
  | dangling hn _ => exact ⟨rfl, _, hn⟩
  | still hn _ _ => exact ⟨rfl, _, hn⟩

theorem comes_led : (led d r).Comes s c step ↔
    (∃ f, d.Comes s c (.error f) ∧ step = .error f) ∨
      (∃ f, d.Comes s c (.ok (.failure f)) ∧ step = .ok (.failure f)) ∨
    ∃ n, d.Comes s c (.ok (.success n)) ∧
      ((∃ f, r.Comes s n.rest (.error f) ∧ step = .error f) ∨
      (∃ f, r.Comes s n.rest (.ok (.failure f)) ∧ step = .ok (.failure f)) ∨
      ∃ m, r.Comes s n.rest (.ok (.success m)) ∧
        step = .ok (.success (.spanning m.value c m.rest))) := by
  have hbehind (n : Match) :
      (Plan.require r n.rest fun m =>
        .require (literal "") m.rest fun k => .consume m.value c k.rest).Comes s step ↔
        (∃ f, r.Comes s n.rest (.error f) ∧ step = .error f) ∨
        (∃ f, r.Comes s n.rest (.ok (.failure f)) ∧ step = .ok (.failure f)) ∨
        ∃ m, r.Comes s n.rest (.ok (.success m)) ∧
          step = .ok (.success (.spanning m.value c m.rest)) := by
    rw [Plan.comes_require]
    simp only [comes_require_empty, Plan.consume, Plan.succeed, Plan.comes_done, Match.spanning]
  rw [comes_iff_plan, led, plan, Plan.enclosed, Plan.comes_require]
  simp only [hbehind]

theorem comes_led_error {f : Fault} : (led d r).Comes s c (.error f) ↔
    d.Comes s c (.error f) ∨ ∃ n, d.Comes s c (.ok (.success n)) ∧ r.Comes s n.rest (.error f) := by
  rw [comes_led]
  simp

theorem comes_led_failure {f : Failure} : (led d r).Comes s c (.ok (.failure f)) ↔
    d.Comes s c (.ok (.failure f)) ∨
      ∃ n, d.Comes s c (.ok (.success n)) ∧ r.Comes s n.rest (.ok (.failure f)) := by
  rw [comes_led]
  simp

theorem comes_led_success {m : Match} : (led d r).Comes s c (.ok (.success m)) ↔
    ∃ n m', d.Comes s c (.ok (.success n)) ∧ r.Comes s n.rest (.ok (.success m')) ∧
      m = .spanning m'.value c m'.rest := by
  rw [comes_led]
  simp

/-- A round that does not advance is the last. -/
theorem round_comes
    (hstill : ∀ n m, d.Comes s c (.ok (.success n)) → r.Comes s n.rest (.ok (.success m)) →
      m.rest.offset ≤ c.offset)
    (next : List Value → Cursor → Plan) (values : List Value) :
    (Plan.round r d trailing start next values c).Comes s step ↔
      Concludes s r d trailing (.list values.reverse) start c step := by
  rw [Plan.round, Plan.comes_apply]
  constructor
  · rintro (⟨f, hf, rfl⟩ | ⟨o, ho, hstep⟩)
    · exact .delimiter_fault hf
    cases o with
    | failure f =>
      rw [Plan.comes_gather] at hstep
      rw [hstep]
      exact .ended ho
    | success n =>
      rcases Plan.comes_apply.1 hstep with ⟨f, hf, rfl⟩ | ⟨o, ho', hstep⟩
      · exact .element_fault ho hf
      cases o with
      | failure f =>
        rw [Plan.comes_gather] at hstep
        rw [hstep]
        exact .dangling ho ho'
      | success m =>
        have hle := hstill n m ho ho'
        dsimp only at hstep
        rw [if_pos hle, Plan.comes_gather] at hstep
        rw [hstep]
        exact .still ho ho' hle
  · intro hconcludes
    cases hconcludes with
    | ended h => exact .inr ⟨_, h, Plan.comes_gather.2 rfl⟩
    | dangling hn hm => exact .inr ⟨_, hn, hm.apply.2 (Plan.comes_gather.2 rfl)⟩
    | still hn hm hle =>
      refine .inr ⟨_, hn, hm.apply.2 ?_⟩
      dsimp only
      rw [if_pos hle]
      exact Plan.comes_gather.2 rfl
    | delimiter_fault h => exact .inl ⟨_, h, rfl⟩
    | element_fault hn hf => exact .inr ⟨_, hn, Plan.comes_apply.2 (.inl ⟨_, hf, rfl⟩)⟩

/-- Any other goes on behind its element. -/
theorem round_comes_next {n m : Match} (hn : d.Comes s c (.ok (.success n)))
    (hm : r.Comes s n.rest (.ok (.success m))) (hadvance : c.offset < m.rest.offset)
    (next : List Value → Cursor → Plan) (values : List Value) :
    (Plan.round r d trailing start next values c).Comes s step ↔
      (next (m.value.collect values) m.rest).Comes s step := by
  rw [Plan.round, hn.apply]
  dsimp only
  rw [hm.apply]
  dsimp only
  rw [if_neg (Nat.not_le.2 hadvance)]

/-- A list begins with its element, whatever it is put together from. -/
theorem comes_of_no_match (h : ∀ m, ¬ r.Comes s c (.ok (.success m))) (d : Rule) (trailing : Bool)
    (step : Step) : ((separated r d trailing).Comes s c step ↔
      (∃ f, r.Comes s c (.error f) ∧ step = .error f) ∨
        ∃ f, r.Comes s c (.ok (.failure f)) ∧ step = .ok (.failure f)) ∧
    ((folded r d).Comes s c step ↔
      (∃ f, r.Comes s c (.error f) ∧ step = .error f) ∨
        ∃ f, r.Comes s c (.ok (.failure f)) ∧ step = .ok (.failure f)) := by
  constructor
  · rw [comes_iff_plan, plan, Plan.separated, Plan.comes_require]
    simp [h]
  · rw [comes_iff_plan, folded, plan, Plan.pair, Plan.comes_require]
    simp [h]

theorem comes_followed : (followed r d).Comes s c step ↔
    (∃ f, r.Comes s c (.error f) ∧ step = .error f) ∨
      (∃ f, r.Comes s c (.ok (.failure f)) ∧ step = .ok (.failure f)) ∨
    ∃ m, r.Comes s c (.ok (.success m)) ∧
      ((∃ f, d.Comes s m.rest (.error f) ∧ step = .error f) ∨
      (∃ f, d.Comes s m.rest (.ok (.failure f)) ∧
        step = .ok (.success (.spanning m.value c m.rest))) ∨
      ∃ n, d.Comes s m.rest (.ok (.success n)) ∧
        step = .ok (.success (.spanning m.value c n.rest))) := by
  have hbehind (m : Match) :
      (Plan.require (.optional d) m.rest fun n => .consume m.value c n.rest).Comes s step ↔
      (∃ f, d.Comes s m.rest (.error f) ∧ step = .error f) ∨
      (∃ f, d.Comes s m.rest (.ok (.failure f)) ∧
        step = .ok (.success (.spanning m.value c m.rest))) ∨
      ∃ n, d.Comes s m.rest (.ok (.success n)) ∧
        step = .ok (.success (.spanning m.value c n.rest)) := by
    rw [Plan.comes_require]
    simp [comes_optional, Plan.consume, Plan.succeed, Plan.comes_done, or_and_right, exists_or,
      Match.spanning]
  rw [comes_iff_plan, followed, plan, Plan.enclosed, comes_require_empty, Match.spanning,
    Plan.comes_require]
  simp only [hbehind]

section

variable (hs : s.Composed) (hr : r.Composed) (hd : d.Composed)
include hs hr hd

/-- With turns enough a list goes along the chain of its elements, each with the delimiter before
it. -/
theorem Chain.elements_comes (h : Chain s (led d r) c ms q) (hq : (led d r).Stops s q)
    (values : List Value) {turns : Nat} (hturns : c.after.length ≤ turns) :
    (Plan.elements r d trailing start turns values c).Comes s step ↔
      Concludes s r d trailing (.list (values.reverse ++ Value.kept (ms.map Match.value)))
        start q step := by
  have hled {c : Cursor} {step : Step} : (led d r).Gives s c step ↔ (led d r).Comes s c step :=
    (hd.led hr).gives_iff hs
  induction h generalizing values turns with
  | done c =>
    have hstill (n m : Match) (hn : d.Comes s c (.ok (.success n)))
        (hm : r.Comes s n.rest (.ok (.success m))) : m.rest.offset ≤ c.offset :=
      hq (.spanning m.value c m.rest) (hled.2 (comes_led_success.2 ⟨n, m, hn, hm, rfl⟩))
    rw [List.map_nil, Value.kept_nil, List.append_nil]
    cases turns with
    | zero => exact round_comes hstill _ values
    | succ turns => exact round_comes hstill _ values
  | next hnext hadvance _ ih =>
    have hshorter := ((hd.led hr).gives_reaches hs hnext).length_lt hadvance
    obtain ⟨n, m, hn, hm, rfl⟩ := comes_led_success.1 (hled.1 hnext)
    obtain ⟨turns, rfl⟩ := Nat.exists_eq_succ_of_ne_zero (show turns ≠ 0 by omega)
    have hturns : m.rest.after.length ≤ turns :=
      Nat.le_of_lt_succ (Nat.lt_of_lt_of_le hshorter hturns)
    have hrest := ih hq (m.value.collect values) hturns
    rw [Value.reverse_collect] at hrest
    rw [Plan.elements, round_comes_next hn hm hadvance]
    exact hrest

/-- Behind its first element, a list goes along the chain. -/
theorem Chain.comes_separated {first : Match} (hfirst : r.Comes s c (.ok (.success first)))
    (h : Chain s (led d r) first.rest ms q) (hq : (led d r).Stops s q) :
    (separated r d trailing).Comes s c step ↔
      Concludes s r d trailing (.list (Value.kept ((first :: ms).map Match.value))) c q step := by
  rw [comes_iff_plan, plan, Plan.separated, hfirst.require, List.map_cons]
  have hvalues := first.value.reverse_collect [] (ms.map Match.value)
  rw [List.reverse_nil, List.nil_append] at hvalues
  rw [← hvalues]
  exact h.elements_comes hs hr hd hq _ (Nat.le_refl _)

/-- A list that may not end in a delimiter concludes as a repetition does. -/
theorem concludes_false : Concludes s r d false value start q step ↔
    ((led d r).Halts s q ∧ step = .ok (.success (.spanning value start q))) ∨
    ∃ f, (led d r).Comes s q (.error f) ∧ step = .error f := by
  simp only [Halts, (hd.led hr).gives_iff hs]
  constructor
  · intro h
    cases h with
    | ended h => exact .inl ⟨.inl ⟨_, comes_led_failure.2 (.inl h)⟩, rfl⟩
    | dangling hn hf => exact .inl ⟨.inl ⟨_, comes_led_failure.2 (.inr ⟨_, hn, hf⟩)⟩, rfl⟩
    | still hn hm hle => exact .inl ⟨.inr ⟨_, comes_led_success.2 ⟨_, _, hn, hm, rfl⟩, hle⟩, rfl⟩
    | delimiter_fault h => exact .inr ⟨_, comes_led_error.2 (.inl h), rfl⟩
    | element_fault hn hf => exact .inr ⟨_, comes_led_error.2 (.inr ⟨_, hn, hf⟩), rfl⟩
  · rintro (⟨⟨f, hf⟩ | ⟨m, hm, hle⟩, rfl⟩ | ⟨f, hf, rfl⟩)
    · rcases comes_led_failure.1 hf with hf | ⟨n, hn, hf⟩
      · exact .ended hf
      · exact .dangling hn hf
    · obtain ⟨n, m', hn, hm', rfl⟩ := comes_led_success.1 hm
      exact .still hn hm' hle
    · rcases comes_led_error.1 hf with hf | ⟨n, hn, hf⟩
      · exact .delimiter_fault hf
      · exact .element_fault hn hf

/-- Where an element does not advance, its delimiter does not either. -/
theorem rest_eq_of_still {n m : Match} (hn : d.Comes s q (.ok (.success n)))
    (hm : r.Comes s n.rest (.ok (.success m))) (hle : m.rest.offset ≤ q.offset) : n.rest = q := by
  have hdelimiter := hd.gives_reaches hs ((hd.gives_iff hs).2 hn)
  have helement := hr.gives_reaches hs ((hr.gives_iff hs).2 hm)
  refine Cursor.eq_of_offset hdelimiter.1 ?_
  have := hdelimiter.2
  have := helement.2
  omega

/-- A list that may end in a delimiter concludes as one that may not, and then takes what there is
of a delimiter. -/
theorem concludes_true : Concludes s r d true value start q step ↔
    (∃ f, Concludes s r d false value start q (.error f) ∧ step = .error f) ∨
    (∃ f, Concludes s r d false value start q (.ok (.failure f)) ∧ step = .ok (.failure f)) ∨
    ∃ m, Concludes s r d false value start q (.ok (.success m)) ∧
      ((∃ f, d.Comes s m.rest (.error f) ∧ step = .error f) ∨
      (∃ f, d.Comes s m.rest (.ok (.failure f)) ∧
        step = .ok (.success (.spanning m.value start m.rest))) ∨
      ∃ n, d.Comes s m.rest (.ok (.success n)) ∧
        step = .ok (.success (.spanning m.value start n.rest))) := by
  constructor
  · intro h
    cases h with
    | ended h => exact .inr (.inr ⟨_, .ended h, .inr (.inl ⟨_, h, rfl⟩)⟩)
    | dangling hn hf => exact .inr (.inr ⟨_, .dangling hn hf, .inr (.inr ⟨_, hn, rfl⟩)⟩)
    | still hn hm hle =>
      refine .inr (.inr ⟨_, .still hn hm hle, .inr (.inr ⟨_, hn, ?_⟩)⟩)
      rw [rest_eq_of_still hs hr hd hn hm hle]
      rfl
    | delimiter_fault h => exact .inl ⟨_, .delimiter_fault h, rfl⟩
    | element_fault hn hf => exact .inl ⟨_, .element_fault hn hf, rfl⟩
  · rintro (⟨f, hf, rfl⟩ | ⟨f, hf, rfl⟩ | ⟨m, hm, hrest⟩)
    · cases hf with
      | delimiter_fault h => exact .delimiter_fault h
      | element_fault hn hf => exact .element_fault hn hf
    · cases hf
    · obtain ⟨rfl, o, ho⟩ := hm.success
      rcases hrest with ⟨f, hf, rfl⟩ | ⟨f, hf, rfl⟩ | ⟨n, hn, rfl⟩
      · cases ho.unique hf
      · cases hm with
        | ended h => exact .ended h
        | dangling hn _ => cases hn.unique hf
        | still hn _ _ => cases hn.unique hf
      · cases hm with
        | ended h => cases h.unique hn
        | dangling hn' hf =>
          cases hn'.unique hn
          exact .dangling hn hf
        | still hn' hm hle =>
          cases hn'.unique hn
          have hrest : n.rest = q := rest_eq_of_still hs hr hd hn hm hle
          have hq : (Match.spanning value start q).rest = q := rfl
          rw [hrest]
          exact .still hn hm hle

/-- The same of the list that is put together from other operators, but that it keeps its first
element apart. -/
theorem Chain.comes_folded {first : Match} (hfirst : r.Comes s c (.ok (.success first)))
    (h : Chain s (led d r) first.rest ms q) (hq : (led d r).Stops s q) :
    (folded r d).Comes s c step ↔ ((led d r).Halts s q ∧ step =
        .ok (.success (.spanning
          (.list [first.value, .list (Value.kept (ms.map Match.value))]) c q))) ∨
      ∃ f, (led d r).Comes s q (.error f) ∧ step = .error f := by
  have hrest (step : Step) : (repeated (led d r)).Comes s first.rest step ↔ _ :=
    ((hd.led hr).repeated.gives_iff hs).symm.trans (h.gives_repeated hs (hd.led hr) hq)
  rw [comes_iff_plan, folded, plan, Plan.pair, hfirst.require, comes_require_empty, Match.spanning,
    Plan.comes_require]
  simp [hrest, (hd.led hr).gives_iff hs, Plan.consume, Plan.succeed, Plan.comes_done,
    Match.spanning, and_assoc, or_comm]

/-- The values of a chain of elements are those of the elements, without the delimiters before
them. -/
theorem Chain.led_values (h : Chain s (led d r) c ms q) :
    ∀ v ∈ ms.map Match.value, ∃ c' m, r.Comes s c' (.ok (.success m)) ∧ m.value = v := by
  induction h with
  | done => simp
  | next hled _ _ ih =>
    obtain ⟨n, m, _, hm, rfl⟩ := comes_led_success.1 (((hd.led hr).gives_iff hs).1 hled)
    exact List.forall_mem_cons.2 ⟨⟨n.rest, m, hm, rfl⟩, ih⟩

/-- A list that may not end in a delimiter is folded from other operators. -/
theorem separated_folded (c : Cursor) :
    (∀ f, (separated r d false).Comes s c (.error f) ↔ (folded r d).Comes s c (.error f)) ∧
    (∀ f, (separated r d false).Comes s c (.ok (.failure f)) ↔
      (folded r d).Comes s c (.ok (.failure f))) ∧
    (∀ m, (separated r d false).Comes s c (.ok (.success m)) →
      ∃ v vs, m.value = .list (Value.kept [v] ++ vs) ∧
      (folded r d).Comes s c (.ok (.success ⟨.list [v, .list vs], m.span, m.rest⟩))) ∧
    ∀ m, (folded r d).Comes s c (.ok (.success m)) → ∃ v vs, m.value = .list [v, .list vs] ∧
      (separated r d false).Comes s c
        (.ok (.success ⟨.list (Value.kept [v] ++ vs), m.span, m.rest⟩)) := by
  by_cases hfirst : ∃ m, r.Comes s c (.ok (.success m))
  · obtain ⟨first, hfirst⟩ := hfirst
    obtain ⟨ms, q, hchain, hq⟩ := exists_chain hs (hd.led hr) first.rest
    have hvalues : Value.kept ((first :: ms).map Match.value) =
        Value.kept [first.value] ++ Value.kept (ms.map Match.value) :=
          List.filter_append [first.value] _
    have hseparated (step : Step) : (separated r d false).Comes s c step ↔ _ :=
      (hchain.comes_separated hs hr hd hfirst hq).trans (concludes_false hs hr hd)
    have hfolded (step : Step) : (folded r d).Comes s c step ↔ _ :=
      hchain.comes_folded hs hr hd hfirst hq
    simp only [hseparated, hfolded, hvalues]
    refine ⟨?_, ?_, ?_, ?_⟩
    · simp
    · simp
    · rintro m (⟨hhalts, hm⟩ | ⟨_, _, hm⟩)
      · cases hm
        exact ⟨_, _, rfl, .inl ⟨hhalts, rfl⟩⟩
      · cases hm
    · rintro m (⟨hhalts, hm⟩ | ⟨_, _, hm⟩)
      · cases hm
        exact ⟨_, _, rfl, .inl ⟨hhalts, rfl⟩⟩
      · cases hm
  · simp only [not_exists] at hfirst
    have hnone (step : Step) := comes_of_no_match hfirst d false step
    simp [hnone]

/-- A list that may end in a delimiter is one that may not, with an optional delimiter behind it. -/
theorem separated_followed (c : Cursor) (step : Step) :
    (separated r d true).Comes s c step ↔ (followed (separated r d false) d).Comes s c step := by
  rw [comes_followed]
  by_cases hfirst : ∃ m, r.Comes s c (.ok (.success m))
  · obtain ⟨first, hfirst⟩ := hfirst
    obtain ⟨ms, q, hchain, hq⟩ := exists_chain hs (hd.led hr) first.rest
    have hseparated (trailing : Bool) (step : Step) : (separated r d trailing).Comes s c step ↔ _ :=
      hchain.comes_separated hs hr hd hfirst hq
    simp only [hseparated]
    exact concludes_true hs hr hd
  · simp only [not_exists] at hfirst
    have hnone (trailing : Bool) (step : Step) := (comes_of_no_match hfirst d trailing step).1
    simp [hnone]

/-- A list that matches and may not end in a delimiter holds values of elements alone. Behind it
there is no delimiter, or one that the list takes if it may. -/
theorem separated_match {m : Match} (h : (separated r d false).Comes s c (.ok (.success m))) :
    (∃ vs, m.value = .list (Value.kept vs) ∧
      ∀ v ∈ vs, ∃ c' n, r.Comes s c' (.ok (.success n)) ∧ n.value = v) ∧
    (((∃ f, d.Comes s m.rest (.ok (.failure f))) ∧
      (separated r d true).Comes s c (.ok (.success m))) ∨
    ∃ n, d.Comes s m.rest (.ok (.success n)) ∧
      (separated r d true).Comes s c (.ok (.success (.spanning m.value c n.rest)))) := by
  by_cases hfirst : ∃ m, r.Comes s c (.ok (.success m))
  · obtain ⟨first, hfirst⟩ := hfirst
    obtain ⟨ms, q, hchain, hq⟩ := exists_chain hs (hd.led hr) first.rest
    obtain ⟨rfl, o, ho⟩ := ((hchain.comes_separated hs hr hd hfirst hq).1 h).success
    have hfollowed (step : Step) :=
      (separated_followed hs hr hd c step).trans comes_followed
    refine ⟨⟨(first :: ms).map Match.value, rfl, ?_⟩, ?_⟩
    · exact List.forall_mem_cons.2 ⟨⟨c, first, hfirst, rfl⟩, hchain.led_values hs hr hd⟩
    · cases o with
      | failure f =>
        exact .inl ⟨⟨f, ho⟩, (hfollowed _).2 (.inr (.inr ⟨_, h, .inr (.inl ⟨f, ho, rfl⟩)⟩))⟩
      | success n =>
        exact .inr ⟨n, ho, (hfollowed _).2 (.inr (.inr ⟨_, h, .inr (.inr ⟨n, ho, rfl⟩)⟩))⟩
  · simp only [not_exists] at hfirst
    rw [(comes_of_no_match hfirst d false _).1] at h
    simp at h

/-- Without limits a list that may not end in a delimiter comes to what an element and the
repetition of elements, each enclosed in a delimiter and nothing, come to: it fails in the same way,
raises the same fault or matches the same text, and its value is the list of that element, if it is
worth keeping, and of the items of the repetition. A list that may end in a delimiter is one that
may not, with an optional delimiter behind it. So a list holds values of elements alone, and a
delimiter that dangles is taken just if it may be. -/
theorem separated_derived (c : Cursor) :
    ((∀ f, (separated r d false).Gives s c (.error f) ↔
        (pair r (repeated (enclosed d r (literal ""))) (literal "")).Gives s c (.error f)) ∧
      (∀ f, (separated r d false).Gives s c (.ok (.failure f)) ↔
        (pair r (repeated (enclosed d r (literal ""))) (literal "")).Gives s c (.ok (.failure f))) ∧
      (∀ m, (separated r d false).Gives s c (.ok (.success m)) →
        ∃ v vs, m.value = .list (Value.kept [v] ++ vs) ∧
        (pair r (repeated (enclosed d r (literal ""))) (literal "")).Gives s c
          (.ok (.success ⟨.list [v, .list vs], m.span, m.rest⟩))) ∧
      ∀ m, (pair r (repeated (enclosed d r (literal ""))) (literal "")).Gives s c
        (.ok (.success m)) → ∃ v vs, m.value = .list [v, .list vs] ∧
          (separated r d false).Gives s c
            (.ok (.success ⟨.list (Value.kept [v] ++ vs), m.span, m.rest⟩))) ∧
    (∀ step, (separated r d true).Gives s c step ↔
      (enclosed (literal "") (separated r d false) (optional d)).Gives s c step) ∧
    ∀ m, (separated r d false).Gives s c (.ok (.success m)) →
      (∃ vs, m.value = .list (Value.kept vs) ∧
        ∀ v ∈ vs, ∃ c' n, r.Gives s c' (.ok (.success n)) ∧ n.value = v) ∧
      (((∃ f, d.Gives s m.rest (.ok (.failure f))) ∧
        (separated r d true).Gives s c (.ok (.success m))) ∨
      ∃ n, d.Gives s m.rest (.ok (.success n)) ∧
        (separated r d true).Gives s c (.ok (.success (.spanning m.value c n.rest)))) :=
  by
  have hseparated (trailing : Bool) {c : Cursor} {step : Step} :
      (separated r d trailing).Gives s c step ↔ (separated r d trailing).Comes s c step :=
    (Composed.separated hr hd trailing).gives_iff hs
  have hfolded {step : Step} :
      (pair r (repeated (enclosed d r (literal ""))) (literal "")).Gives s c step ↔
        (folded r d).Comes s c step :=
    Composed.gives_iff hs (.pair hr (hd.led hr).repeated (.token _))
  have hfollowed {step : Step} :
      (enclosed (literal "") (separated r d false) (optional d)).Gives s c step ↔
      (followed (separated r d false) d).Comes s c step :=
    Composed.gives_iff hs (.enclosed (.token _) (.separated hr hd false) (.optional hd))
  simp only [hseparated, hfolded, hfollowed, hr.gives_iff hs, hd.gives_iff hs]
  exact ⟨separated_folded hs hr hd c, separated_followed hs hr hd c,
    fun _ => separated_match hs hr hd⟩

end

/-- Letters, and signs that are not kept. -/
def signs : Rule := .choice [literal "a", .discard (literal "+")]

/-- A list that begins with a sign and is followed by a delimiter. -/
theorem separated_derived_signs : Store.empty.Composed ∧ signs.Composed ∧ comma.Composed ∧
    ∃ m n, (separated signs comma false).Gives .empty (.start "+,a,".toList) (.ok (.success m)) ∧
      m.value = .list [.text "a"] ∧ m.rest.offset = 3 ∧
        comma.Gives .empty m.rest (.ok (.success n)) ∧
      (separated signs comma true).Gives .empty (.start "+,a,".toList)
        (.ok (.success (.spanning m.value (.start "+,a,".toList) n.rest))) := by
  have hs : Store.Composed .empty := Store.composed_empty
  have hr : signs.Composed := by decide
  have hd : comma.Composed := by decide
  obtain ⟨⟨_, _, _, hfolded⟩, _, hmatch⟩ := separated_derived hs hr hd (.start "+,a,".toList)
  let rest : Cursor := (Cursor.start "+,a,".toList).past "+,a".toList ",".toList
  have hpair :
      (pair signs (repeated (enclosed comma signs (literal ""))) (literal "")).Composed := by decide
  have hgives :
      (pair signs (repeated (enclosed comma signs (literal ""))) (literal "")).Gives .empty
      (.start "+,a,".toList) (.ok (.success ⟨.list [.unit, .list [.text "a"]], ⟨0, 3⟩, rest⟩)) :=
    (hpair.gives_iff hs).2 (comes_of_trace 6 rfl)
  obtain ⟨v, vs, hvalue, hlist⟩ := hfolded _ hgives
  obtain ⟨rfl, rfl⟩ : v = .unit ∧ vs = [.text "a"] := by simpa [eq_comm] using hvalue
  have hcomma :
      comma.Gives .empty rest (.ok (.success ⟨.text ",", ⟨3, 4⟩, rest.past ",".toList []⟩)) :=
    (hd.gives_iff hs).2 (comes_of_trace 1 rfl)
  rcases (hmatch _ hlist).2 with ⟨⟨f, hf⟩, _⟩ | ⟨n, hn, htrue⟩
  · cases hf.unique hcomma
  · exact ⟨hs, hr, hd, _, n, hlist, rfl, rfl, hn, htrue⟩

end Rule

end Descent
