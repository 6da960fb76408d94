import Mathlib.Data.Finset.Prod
import Mathlib.Order.Monotone.Basic
import Descent.Proofs.Account
import Descent.Proofs.Extent
import Descent.Proofs.Parts
import Descent.Rule.Parse

namespace Descent

theorem Limits.eq_unbounded {l : Limits} (h : l.deepest? = none) : l = .unbounded := by
  obtain ⟨d, n⟩ := l
  cases d <;> cases n <;> first | rfl | cases h

namespace Budget

/-- The limits stop an evaluation before it runs out of room. -/
def Bounds (b : Budget) (room : Nat) : Prop :=
  (∃ d, b.limits.maxDepth = some d ∧ b.depth ≤ d ∧ d < b.depth+room) ∨
  ∃ n, b.limits.maxSteps = some n ∧ b.steps ≤ n ∧ n < b.steps+room

theorem Frame.bounds {b b' : Budget} (h : b.Frame b') {room : Nat} (hb : b.Bounds room) :
    b'.Bounds room := by
  rcases hb with ⟨d, hd, hle, hlt⟩ | ⟨n, hn, hle, hlt⟩
  · exact .inl ⟨d, h.limits ▸ hd, by rw [h.depth]; exact hle, by rw [h.depth]; exact hlt⟩
  · have := h.le_steps
    exact .inr ⟨n, h.limits ▸ hn, h.steps_le n hn hle, by omega⟩

theorem bounds_fresh {l : Limits} {m : Nat} (h : l.deepest? = some m) :
    (fresh l).Bounds (m+1) := by
  obtain ⟨d, n⟩ := l
  cases d with
  | none => exact .inr ⟨m, h, Nat.zero_le _, by change m < 0+(m+1); omega⟩
  | some d =>
    cases n with
    | none =>
      obtain rfl := Option.some.inj h
      exact .inl ⟨d, rfl, Nat.zero_le _, by change d < 0+(d+1); omega⟩
    | some n =>
      obtain rfl := Option.some.inj h
      rcases Nat.le_total d n with hdn | hdn
      · exact .inl ⟨d, rfl, Nat.zero_le _, by change d < 0+(min d n+1); omega⟩
      · exact .inr ⟨n, rfl, Nat.zero_le _, by change n < 0+(min d n+1); omega⟩

end Budget

theorem Plan.run_isSome {apply : Rule → Cursor → Budget → Applied} {room : Nat}
    (h : ∀ r c b, b.Bounds room → (apply r c b).isSome)
    (hf : ∀ r c b step b', apply r c b = some (step, b') → b.Frame b') (p : Plan) {b : Budget}
    (hb : b.Bounds room) : (p.run apply b).isSome := by
  induction p generalizing b with
  | done | observe => rfl
  | apply r c next ih =>
    obtain ⟨⟨step, b'⟩, ha⟩ := Option.isSome_iff_exists.1 (h r c b hb)
    rw [Plan.run, ha]
    cases step with
    | error => rfl
    | ok o => exact ih o ((hf r c b _ b' ha).bounds hb)

/-- A rule ends, whatever it is, if the limits are reached before the room is. -/
theorem Rule.apply_isSome (s : Store) {room : Nat} (r : Rule) (c : Cursor) {b : Budget}
    (hb : b.Bounds room) : (r.apply s room c b).isSome := by
  induction room generalizing r c b with
  | zero =>
    exfalso
    rcases hb with ⟨d, _, _, _⟩ | ⟨n, _, _, _⟩ <;> omega
  | succ room ih =>
    rw [Rule.apply]
    rcases Budget.enter_cases b c.offset with ⟨ha, he⟩ | ⟨f, n, _, he, _⟩
    · rw [he]
      have hb' : ({ b with steps := b.steps+1, depth := b.depth+1 } : Budget).Bounds room := by
        rcases hb with ⟨d, hd, _, hlt⟩ | ⟨n, hn, _, hlt⟩
        · exact .inl ⟨d, hd, ha.depth d hd, by change d < b.depth+1+room; omega⟩
        · exact .inr ⟨n, hn, ha.steps n hn, by change n < b.steps+1+room; omega⟩
      have hp := Plan.run_isSome (fun r c b => ih r c) (fun _ _ _ _ _ => Rule.apply_frame)
        (r.plan s c) hb'
      rwa [Option.isSome_map]
    · rw [he]
      rfl

/-- Within limits every application ends, on whatever budget. -/
theorem Rule.exists_apply (s : Store) (r : Rule) (c : Cursor) {b : Budget}
    (hl : b.limits ≠ .unbounded) : ∃ room step b', r.apply s room c b = some (step, b') := by
  have hsome : ∃ room, (r.apply s room c b).isSome := by
    rcases b.enter_cases c.offset with ⟨ha, _⟩ | ⟨f, n, _, he, _⟩
    · cases hd : b.limits.maxDepth with
      | some d =>
        have := ha.depth d hd
        exact ⟨d+1, apply_isSome s r c (.inl ⟨d, hd, by omega, by omega⟩)⟩
      | none =>
        cases hn : b.limits.maxSteps with
        | some n =>
          have := ha.steps n hn
          exact ⟨n+1, apply_isSome s r c (.inr ⟨n, hn, by omega, by omega⟩)⟩
        | none => exact absurd (Limits.ext hd hn) hl
    · refine ⟨1, ?_⟩
      rw [apply, he]
      rfl
  obtain ⟨room, hroom⟩ := hsome
  obtain ⟨⟨step, b'⟩, happly⟩ := Option.isSome_iff_exists.1 hroom
  exact ⟨room, step, b', happly⟩

/-- Where the applications are over that matter for a plan, less room makes no difference. -/
theorem Plan.trace_congr {k : Contract} {goal : List Event → Step → Prop}
    {f g : Rule → Cursor → Trace}
    (hpost : ∀ r c, k.pre r c → ∀ step, (g r c).step = some step →
      k.post r c (g r c).events step)
    (h : ∀ r c, k.pre r c → (g r c).step.isSome → f r c = g r c)
    {p : Plan} {es : List Event} (hp : p.Meets k goal es) (hs : (p.trace g).step.isSome) :
    p.trace f = p.trace g := by
  induction p generalizing es with
  | done => rfl
  | observe => rfl
  | apply r c next ih =>
    obtain ⟨hpre, _, hok⟩ := hp
    rw [Plan.trace] at hs
    cases ht : (g r c).step with
    | none =>
      rw [Trace.andThen_none ht, ht] at hs
      cases hs
    | some step =>
      have heq := h r c hpre (by rw [ht]; rfl)
      cases step with
      | error e => rw [Plan.trace, Plan.trace, heq, Trace.andThen_error ht, Trace.andThen_error ht]
      | ok o =>
        rw [Trace.andThen_ok ht] at hs
        rw [Plan.trace, Plan.trace, heq, Trace.andThen_ok ht, Trace.andThen_ok ht,
          ih o (hok _ o (hpost r c hpre _ ht)) hs]

namespace Rule

section

variable (s : Store) (r : Rule) (text : List Char)

/-- All cursors in a text. -/
def cursors : Finset Cursor :=
  (Finset.range (text.length+1)).image fun n => (Cursor.start text).forward n

theorem mem_cursors {c : Cursor} (h : c.source = text) : c ∈ cursors text := by
  have hl : c.before.length ≤ text.length := by
    rw [← h]
    simp [Cursor.source]
  refine Finset.mem_image.2 ⟨c.before.length, Finset.mem_range.2 (by omega), ?_⟩
  refine Cursor.eq_of_offset (by simp [h]) ?_
  have hb : text.take c.before.length = c.before.reverse := by
    rw [← h, Cursor.source, ← List.length_reverse, List.take_left]
  change 0+Text.byteLength (text.take c.before.length) = c.offset
  rw [hb, c.offset_eq, Text.byteLength_reverse, Nat.zero_add]

open Classical in
/-- The rules and cursors that `r` may lead to in a text and that end in some room. -/
noncomputable def ended (room : Nat) : Finset (Rule × Cursor) :=
  ((r.reach s).toFinset ×ˢ cursors text).filter fun x => (x.1.trace s room x.2).step.isSome

theorem card_ended_le (room : Nat) :
    (ended s r text room).card ≤ (s.size+r.size)*(text.length+1) := by
  classical
  calc (ended s r text room).card
      ≤ ((r.reach s).toFinset ×ˢ cursors text).card := Finset.card_filter_le _ _
    _ = (r.reach s).toFinset.card*(cursors text).card := Finset.card_product _ _
    _ ≤ (r.reach s).length*(text.length+1) := by
      refine Nat.mul_le_mul (List.toFinset_card_le _) ?_
      exact Finset.card_image_le.trans (Finset.card_range _).le
    _ = (s.size+r.size)*(text.length+1) := by rw [length_reach]

theorem trace_isSome_mono {room room' : Nat} (h : room ≤ room') {r : Rule} {c : Cursor}
    (he : (r.trace s room c).step.isSome) : (r.trace s room' c).step.isSome := by
  obtain ⟨step, hs⟩ := Option.isSome_iff_exists.1 he
  rwa [(Rule.trace_grows s h r c).2 step hs]

theorem ended_mono {room room' : Nat} (h : room ≤ room') :
    ended s r text room ⊆ ended s r text room' := by
  classical
  exact Finset.monotone_filter_right _ fun x _ hx => trace_isSome_mono s h hx

/-- What `r` may lead to is applied in the text, and ends within. -/
def confined : Contract :=
  ⟨fun p d => p ∈ r.reach s ∧ d.source = text, fun _ d _ step => Step.Within d step⟩

variable {s r text}

theorem Composed.plan_confined (hs : s.Composed) (hr : r.Composed) {q : Rule}
    (hq : q ∈ r.reach s) {c : Cursor} (hc : c.source = text) :
    (q.plan s c).Meets (confined s r text) (fun _ step => Step.Within c step) [] := by
  have hcomp := hr.reach hs hq
  refine ((hcomp.plan_among c []).and (hcomp.plan_stays c [])).mono ?_ ?_ ?_
  · exact fun p d hp => ⟨callee_mem_reach hq hp.1, hp.2.1.trans hc⟩
  · exact fun _ _ _ _ hw => ⟨trivial, hw⟩
  · exact fun _ _ hgoal => hgoal.2

/-- If a unit of room lets nothing more end, then neither does another one. -/
theorem ended_stable (hs : s.Composed) (hr : r.Composed) {room : Nat}
    (h : ended s r text room = ended s r text (room+1)) :
    ended s r text (room+1) = ended s r text (room+2) := by
  classical
  refine (ended_mono s r text (Nat.le_succ _)).antisymm fun x hx => ?_
  obtain ⟨q, c⟩ := x
  obtain ⟨hqc, hsome⟩ := Finset.mem_filter.1 hx
  have hq : q ∈ r.reach s := List.mem_toFinset.1 (Finset.mem_product.1 hqc).1
  have hc : c.source = text := by
    obtain ⟨n, _, hn⟩ := Finset.mem_image.1 (Finset.mem_product.1 hqc).2
    rw [show c = _ from hn.symm, Cursor.source_forward, Cursor.source_start]
  refine Finset.mem_filter.2 ⟨hqc, ?_⟩
  -- What the rule applies is in the table, where the last unit of room made no difference.
  have heq := Plan.trace_congr (f := Rule.trace s room) (g := Rule.trace s (room+1))
    (k := confined s r text)
    (fun p d hp step hstep =>
      ((hr.reach hs hp.1).trace_within hs (room+1) d).2.2 step hstep)
    (fun p d hp hsome => ?_) (hr.plan_confined hs hq hc) hsome
  · change ((q.plan s c).trace (Rule.trace s room)).step.isSome
    rw [heq]
    exact hsome
  · have hmem : (p, d) ∈ ended s r text (room+1) := Finset.mem_filter.2
      ⟨Finset.mem_product.2 ⟨List.mem_toFinset.2 hp.1, mem_cursors text hp.2⟩, hsome⟩
    rw [← h] at hmem
    obtain ⟨step, hstep⟩ := Option.isSome_iff_exists.1 (Finset.mem_filter.1 hmem).2
    exact ((Rule.trace_grows s (Nat.le_succ room) p d).2 step hstep).symm

/-- A rule that ends in any room ends in as much as there are rules and cursors. -/
theorem Composed.trace_isSome (hs : s.Composed) (hr : r.Composed) {c : Cursor} {room room' : Nat}
    (h : (r.trace s room c).step.isSome)
    (hroom : (s.size+r.size)*(c.source.length+1) ≤ room') : (r.trace s room' c).step.isSome := by
  classical
  have hcard {m : Nat} (hm : (s.size+r.size)*(c.source.length+1) ≤ m) :
      (ended s r c.source m).card =
        (ended s r c.source ((s.size+r.size)*(c.source.length+1))).card := by
    refine Nat.stabilises_of_monotone (f := fun m => (ended s r c.source m).card) ?_
      (card_ended_le s r c.source) ?_ hm
    · exact fun m n hmn => Finset.card_le_card (ended_mono s r c.source hmn)
    · intro m hm
      have hstable := Finset.eq_of_subset_of_card_le (ended_mono s r c.source (Nat.le_succ m)) hm.ge
      exact congrArg Finset.card (ended_stable hs hr hstable)
  have hmem : (r, c) ∈ ended s r c.source (max room room') := Finset.mem_filter.2
    ⟨Finset.mem_product.2 ⟨List.mem_toFinset.2 (self_mem_reach s r), mem_cursors _ rfl⟩,
      trace_isSome_mono s (Nat.le_max_left _ _) h⟩
  have hsame := Finset.eq_of_subset_of_card_le
    (ended_mono s r c.source (Nat.le_max_right room room'))
    ((hcard (hroom.trans (Nat.le_max_right _ _))).trans (hcard hroom).symm).le
  rw [← hsame] at hmem
  exact (Finset.mem_filter.1 hmem).2

end

theorem run_isSome (s : Store) (r : Rule) (text : List Char) {l : Limits} (hl : l ≠ .unbounded) :
    (r.run s text l).isSome := by
  rw [run, room]
  cases hd : l.deepest? with
  | none => exact absurd (Limits.eq_unbounded hd) hl
  | some deepest => exact apply_isSome s r _ (Budget.bounds_fresh hd)

/-- A parse gives what the rule gives in any room. -/
theorem Composed.run_eq_some_iff {s : Store} (hs : s.Composed) {r : Rule} (hr : r.Composed)
    {text : List Char} {l : Limits} {x : Step × Budget} :
    r.run s text l = some x ↔ ∃ room, r.apply s room (.start text) (.fresh l) = some x := by
  constructor
  · intro h
    exact ⟨_, h⟩
  · intro ⟨room, h⟩
    have hsome : (r.run s text l).isSome := by
      by_cases hl : l = .unbounded
      · subst hl
        rw [hr.apply_eq_settle hs, Trace.settle_unbounded _ rfl] at h
        obtain ⟨step, hstep, _⟩ := Option.map_eq_some_iff.1 h
        rw [run, hr.apply_eq_settle hs, Trace.settle_unbounded _ rfl, Option.isSome_map]
        exact hr.trace_isSome hs (by rw [hstep]; rfl) (Nat.le_succ _)
      · exact run_isSome s r text hl
    obtain ⟨y, hy⟩ := Option.isSome_iff_exists.1 hsome
    rw [hy]
    have hx := apply_mono (Nat.le_max_left room (r.room s text l)) h
    rw [apply_mono (Nat.le_max_right room (r.room s text l)) hy] at hx
    exact hx

end Rule

end Descent
