import Mathlib.Algebra.Ring.GeomSum
import Descent.Proofs.Room
import Descent.Proofs.Unbounded

namespace Descent

namespace Cursor

/-- The second cursor stands behind the first, in the same source. -/
def Before (c d : Cursor) : Prop := c.Reaches d ∧ c.offset < d.offset

/-- The cursors stand at or behind `c`, each behind all that come before it. -/
structure Ascends (c : Cursor) (ds : List Cursor) : Prop where
  reaches : ∀ d ∈ ds, c.Reaches d
  pairwise : ds.Pairwise Before

section

variable {c d : Cursor} {ds : List Cursor}

theorem ascends_nil (c : Cursor) : c.Ascends [] := ⟨fun _ h => absurd h List.not_mem_nil, .nil⟩

theorem Ascends.cons (h : c.Before d) (hds : d.Ascends ds) : c.Ascends (c :: ds) where
  reaches e he := by
    rcases List.mem_cons.1 he with rfl | he
    · exact .refl e
    · exact h.1.trans (hds.reaches e he)
  pairwise := List.pairwise_cons.2 ⟨fun e he => ⟨h.1.trans (hds.reaches e he),
    Nat.lt_of_lt_of_le h.2 (hds.reaches e he).2⟩, hds.pairwise⟩

theorem ascends_singleton (c : Cursor) : c.Ascends [c] :=
  ⟨fun _ h => List.mem_singleton.1 h ▸ .refl c, List.pairwise_singleton _ _⟩

theorem Reaches.ascends (h : c.Reaches d) (hds : d.Ascends ds) : c.Ascends ds :=
  ⟨fun e he => h.trans (hds.reaches e he), hds.pairwise⟩

theorem length_le_of_pairwise {n : Nat} (h : ds.Pairwise Before)
    (hn : ∀ d ∈ ds, d.after.length < n) : ds.length ≤ n := by
  induction ds generalizing n with
  | nil => exact Nat.zero_le n
  | cons d ds ih =>
    obtain ⟨hd, hds⟩ := List.pairwise_cons.1 h
    have htail := ih hds fun e he => (hd e he).1.length_lt (hd e he).2
    have hhead := hn d List.mem_cons_self
    rw [List.length_cons]
    omega

/-- There are no more of them than characters, and one for the end. -/
theorem Ascends.length_le (h : c.Ascends ds) : ds.length ≤ c.after.length+1 :=
  length_le_of_pairwise h.pairwise fun d hd => Nat.lt_succ_of_le (h.reaches d hd).length_le

end

end Cursor

namespace Plan

/-- The first, the third, the fifth of a list, and so on. -/
def alternate {α : Type} : List α → List α
  | x :: _ :: xs => x :: alternate xs
  | xs => xs

theorem length_le_alternate {α : Type} (xs : List α) : xs.length ≤ 2*(alternate xs).length := by
  induction xs using alternate.induct with
  | case1 x y xs ih =>
    simp only [alternate, List.length_cons]
    omega
  | case2 xs hxs =>
    rw [alternate.eq_2 xs hxs]
    omega

variable {apply : Rule → Cursor → Budget → Applied}

/-- Where a plan applies rules, in order, as far as it comes. -/
def visits (apply : Rule → Cursor → Budget → Applied) : Plan → Budget → List Cursor
  | .done _, _ | .observe _, _ => []
  | .apply r c next, b => c :: match apply r c b with
    | some (.ok o, b) => (next o).visits apply b
    | _ => []

/-- An application is the last one, or the plan goes on from its outcome. -/
theorem visits_cases {P : List Cursor → Prop} {r : Rule} {c : Cursor}
    {next : Outcome → Plan} {b : Budget} (hlast : P [c])
    (hgo : ∀ o b', apply r c b = some (.ok o, b') → P (c :: (next o).visits apply b')) :
    P ((Plan.apply r c next).visits apply b) := by
  rw [visits]
  split
  · exact hgo _ _ ‹_›
  · exact hlast

theorem visits_apply_le {r : Rule} {c : Cursor} {next : Outcome → Plan} {b : Budget} {n : Nat}
    (h : ∀ o b', ((next o).visits apply b').length ≤ n) :
    ((Plan.apply r c next).visits apply b).length ≤ n+1 := by
  refine visits_cases (P := fun ds => ds.length ≤ n+1) ?_ fun o b' _ => ?_
  · exact Nat.succ_le_succ (Nat.zero_le n)
  · exact Nat.succ_le_succ (h o b')

theorem visits_require_le {r : Rule} {c : Cursor} {next : Match → Plan} {b : Budget} {n : Nat}
    (h : ∀ m b', ((next m).visits apply b').length ≤ n) :
    ((require r c next).visits apply b).length ≤ n+1 := by
  refine visits_apply_le fun o b' => ?_
  cases o with
  | success m => exact h m b'
  | failure => exact Nat.zero_le n

theorem choice_visits_le (apply : Rule → Cursor → Budget → Applied) (c : Cursor) (f : Failure)
    (rs : List Rule) (b : Budget) : ((choice c f rs).visits apply b).length ≤ rs.length := by
  induction rs generalizing f b with
  | nil => exact Nat.le_refl 0
  | cons r rs ih =>
    refine visits_apply_le fun o b' => ?_
    cases o with
    | success => exact Nat.zero_le _
    | failure g => exact ih (f.adopt g) b'

theorem sequence_visits_le (apply : Rule → Cursor → Budget → Applied) (start : Cursor)
    (values : List Value) (c : Cursor) (rs : List Rule) (b : Budget) :
    ((sequence start values c rs).visits apply b).length ≤ rs.length := by
  induction rs generalizing values c b with
  | nil => exact Nat.le_refl 0
  | cons r rs ih => exact visits_require_le fun m b' => ih _ _ b'

/-- Each iteration of a repetition begins behind the one before it. -/
theorem repeated_visits {r : Rule} (hr : Forwards apply r) (start : Cursor) (turns : Nat)
    (values : List Value) (c : Cursor) (b : Budget) :
    c.Ascends ((repeated r start turns values c).visits apply b) := by
  induction turns generalizing values c b with
  | zero => exact visits_cases c.ascends_singleton fun _ _ _ => c.ascends_singleton
  | succ turns ih =>
    refine visits_cases c.ascends_singleton fun o b' ho => ?_
    cases o with
    | failure => exact c.ascends_singleton
    | success m =>
      dsimp only
      split
      · exact c.ascends_singleton
      · exact .cons ⟨hr c b m b' ho, by omega⟩ (ih _ _ b')

theorem round_visits {r delimiter : Rule} (hr : Forwards apply r) (hd : Forwards apply delimiter)
    (trailing : Bool) (start : Cursor) {next : List Value → Cursor → Plan}
    (values : List Value) (c : Cursor)
    (b : Budget) (hn : ∀ values' (d : Cursor) b',
      d.Ascends (alternate ((next values' d).visits apply b'))) :
    c.Ascends (alternate ((round r delimiter trailing start next values c).visits apply b)) := by
  have hlast := c.ascends_singleton
  refine visits_cases (P := fun ds => c.Ascends (alternate ds)) hlast fun o b₁ ho => ?_
  cases o with
  | failure => exact hlast
  | success d =>
    -- The element is the second of the round, so only the delimiter is among every other one.
    refine visits_cases (P := fun ds => c.Ascends (alternate (c :: ds))) hlast fun o b₂ ho' => ?_
    cases o with
    | failure => exact hlast
    | success m =>
      dsimp only
      split
      · exact hlast
      · have hm := (hd c b d b₁ ho).trans (hr d.rest b₁ m b₂ ho')
        exact .cons ⟨hm, by omega⟩ (hn _ _ b₂)

/-- Each delimiter of a list is looked for behind the one before it. -/
theorem elements_visits {r delimiter : Rule} (hr : Forwards apply r) (hd : Forwards apply delimiter)
    (trailing : Bool) (start : Cursor) (turns : Nat) (values : List Value) (c : Cursor)
    (b : Budget) :
    c.Ascends (alternate ((elements r delimiter trailing start turns values c).visits
      apply b)) := by
  induction turns generalizing values c b with
  | zero => exact round_visits hr hd trailing start values c b fun _ d _ => d.ascends_nil
  | succ turns ih => exact round_visits hr hd trailing start values c b fun _ d b' => ih _ d b'

theorem separated_visits {r delimiter : Rule} (hr : Forwards apply r)
    (hd : Forwards apply delimiter) (trailing : Bool) (c : Cursor) (b : Budget) :
    c.Ascends (alternate ((separated r delimiter trailing c).visits apply b).tail) := by
  refine visits_cases (P := fun ds => c.Ascends (alternate ds.tail)) c.ascends_nil fun o b' ho => ?_
  cases o with
  | failure => exact c.ascends_nil
  | success m => exact (hr c b m b' ho).ascends (elements_visits hr hd trailing c _ _ _ b')

/-- If no application takes more than `cost` steps, all of them take no more than `cost` each. -/
theorem run_steps_le {k : Contract} {goal : List Event → Step → Prop} {cost : Nat} {b₀ : Budget}
    (hframe : ∀ r c b step b', apply r c b = some (step, b') → b.Frame b')
    (hpost : ∀ r c b o b', k.pre r c → apply r c b = some (.ok o, b') → ∃ es, k.post r c es (.ok o))
    (hcost : ∀ r c b step b', k.pre r c → b₀.Frame b → apply r c b = some (step, b') →
      b'.steps ≤ b.steps+cost)
    {p : Plan} {es : List Event} (hp : p.Meets k goal es) {b b' : Budget} {step : Step}
    (hb : b₀.Frame b)
    (hrun : p.run apply b = some (step, b')) :
    b'.steps ≤ b.steps+(p.visits apply b).length*cost := by
  induction p generalizing es b with
  | done =>
    obtain rfl := congrArg Prod.snd (Option.some.inj hrun)
    exact Nat.le_add_right _ _
  | observe => exact hp.elim
  | apply r c next ih =>
    obtain ⟨hpre, _, hok⟩ := hp
    rw [run] at hrun
    rw [visits]
    split at hrun
    · rename_i o b₁ ha
      obtain ⟨fs, hfs⟩ := hpost r c b o b₁ hpre ha
      have hfirst := hcost r c b _ b₁ hpre hb ha
      have hrest := ih o (hok fs o hfs) (hb.trans (hframe r c b _ b₁ ha)) hrun
      rw [ha, List.length_cons, Nat.succ_mul]
      dsimp only
      omega
    · rename_i f b₁ ha
      obtain rfl := congrArg Prod.snd (Option.some.inj hrun)
      have hfirst := hcost r c b _ b₁ hpre hb ha
      rw [ha, List.length_singleton, Nat.one_mul]
      exact hfirst
    · cases hrun

end Plan

theorem Budget.enter_steps_le (b : Budget) (offset : Nat) :
    (b.enter offset).2.steps ≤ b.steps+1 := by
  unfold enter
  split
  · exact Nat.le_succ _
  · split <;> exact Nat.le_refl _

namespace Rule

/-- Where a rule that is applied at a cursor applies rules itself. -/
def visits (s : Store) (room : Nat) (r : Rule) (c : Cursor) (b : Budget) : List Cursor :=
  (r.plan s c).visits (Rule.apply s room) b

/-- No rule that `r` leads to applies more rules itself, where `n` characters are left. -/
def width (s : Store) (r : Rule) (n : Nat) : Nat := 2*n+(s.size+r.size)+2

variable {s : Store} {r : Rule}

theorem Composed.visits_repeated (hs : s.Composed) (hr : r.Composed) (room : Nat) (c : Cursor)
    (b : Budget) : c.Ascends ((Rule.repeated r).visits s room c b) :=
  Plan.repeated_visits (hr.forwards hs room) c _ [] c b

theorem Composed.visits_separated (hs : s.Composed) (hr : r.Composed) {delimiter : Rule}
    (hd : delimiter.Composed) (trailing : Bool) (room : Nat) (c : Cursor) (b : Budget) :
    c.Ascends (Plan.alternate ((Rule.separated r delimiter trailing).visits s room c b).tail) :=
  Plan.separated_visits (hr.forwards hs room) (hd.forwards hs room) trailing c b

theorem Composed.visits_length_le (hs : s.Composed) (hr : r.Composed) (room : Nat) (c : Cursor)
    (b : Budget) : (r.visits s room c b).length ≤ 2*c.after.length+r.size+2 := by
  have hone {next : Outcome → Plan} {q : Rule}
      (h : ∀ o b', ((next o).visits (Rule.apply s room) b').length ≤ 0) :
      ((Plan.apply q c next).visits (Rule.apply s room) b).length ≤ 2*c.after.length+r.size+2 := by
    have := Plan.visits_apply_le (r := q) (c := c) (b := b) h
    omega
  have hbound (found : Option Rule) (name : String) :
      ((Plan.bound found name c).visits (Rule.apply s room) b).length ≤
        2*c.after.length+r.size+2 := by
    cases found with
    | none => exact Nat.zero_le _
    | some q => exact hone fun _ _ => Nat.le_refl 0
  have hsize := size_eq r
  cases hr with
  | token p =>
    simp only [visits, plan, Plan.token]
    split <;> exact Nat.zero_le _
  | endOfInput =>
    simp only [visits, plan, Plan.endOfInput]
    split <;> exact Nat.zero_le _
  | @choice rs _ =>
    have hvisits := Plan.choice_visits_le (Rule.apply s room) c (.bare c.offset) rs b
    have hlength := length_le_sizeList rs
    simp only [visits, plan, children] at hsize ⊢
    omega
  | @sequence rs _ =>
    have hvisits := Plan.sequence_visits_le (Rule.apply s room) c [] c rs b
    have hlength := length_le_sizeList rs
    simp only [visits, plan, children] at hsize ⊢
    omega
  | repeated hr =>
    have := (hr.visits_repeated hs room c b).length_le
    omega
  | separated hr hd trailing =>
    have hascends := (hr.visits_separated hs hd trailing room c b).length_le
    have htail := (Plan.length_le_alternate _).trans (Nat.mul_le_mul_left 2 hascends)
    rw [List.length_tail] at htail
    omega
  | enclosed | pair =>
    refine Nat.le_trans (m := 3) ?_ (by omega)
    exact Plan.visits_require_le fun _ _ => Plan.visits_require_le fun _ _ =>
      Plan.visits_require_le fun _ _ => Nat.le_refl 0
  | mapped _ f =>
    refine hone fun o _ => ?_
    cases o with
    | success m =>
      dsimp only
      split <;> exact Nat.le_refl 0
    | failure => exact Nat.le_refl 0
  | discard | optional =>
    refine hone fun o _ => ?_
    cases o <;> exact Nat.le_refl 0
  | label =>
    refine hone fun o _ => ?_
    cases o with
    | success => exact Nat.le_refl 0
    | failure =>
      dsimp only
      split <;> exact Nat.le_refl 0
  | handle | recursive | reference => exact hbound _ _
  | registered => exact hone fun _ _ => Nat.le_refl 0

theorem width_ge {q : Rule} (hq : q ∈ r.reach s) {text : List Char} {c : Cursor}
    (hc : c.source = text) : 2*c.after.length+q.size+2 ≤ r.width s text.length := by
  have hsize := size_le_of_mem_reach hq
  have hlength : c.after.length ≤ text.length := by
    rw [← hc, Cursor.source, List.length_append]
    exact Nat.le_add_left _ _
  rw [width]
  omega

/-- An application takes one step and those of its plan, or it is refused and takes one at most. -/
theorem apply_steps_cases {room : Nat} {c : Cursor} {b b' : Budget} {step : Step}
    (h : r.apply s room c b = some (step, b')) :
    b'.steps ≤ b.steps+1 ∨
    ∃ room' b₁ x b₂, (∀ d, b.limits.maxDepth = some d → b.depth+1 ≤ d) ∧ b₁.limits = b.limits ∧
      b₁.depth = b.depth+1 ∧ b₁.steps = b.steps+1 ∧
      (r.plan s c).run (Rule.apply s room') b₁ = some (x, b₂) ∧ b'.steps = b₂.steps := by
  cases room with
  | zero => cases h
  | succ room =>
    rw [apply] at h
    rcases Budget.enter_cases b c.offset with ⟨ha, he⟩ | ⟨f, steps, _, he, _⟩
    · rw [he] at h
      obtain ⟨⟨x, b₂⟩, hrun, hx⟩ := Option.map_eq_some_iff.1 h
      obtain rfl := congrArg Prod.snd hx
      exact .inr ⟨room, { b with steps := b.steps+1, depth := b.depth+1 }, x, b₂, ha.depth, rfl,
        rfl, rfl, hrun, (b₂.close_frame x).2.2⟩
    · have hsteps := b.enter_steps_le c.offset
      rw [he] at h hsteps
      obtain rfl := congrArg Prod.snd (Option.some.inj h)
      exact .inl hsteps

/-- What applications nested `k` deep can take is a geometric sum: no level is wider than the rules
and the text allow. -/
theorem Composed.apply_steps_le (hs : s.Composed) (hr : r.Composed) {text : List Char}
    {d k room : Nat} {q : Rule} (hq : q ∈ r.reach s) {c : Cursor} (hc : c.source = text)
    {b b' : Budget} {step : Step}
    (hmax : b.limits.maxDepth = some d) (hk : d = b.depth+k)
    (h : q.apply s room c b = some (step, b')) :
    b'.steps ≤ b.steps+∑ i ∈ Finset.range (k+1), r.width s text.length^i := by
  induction k generalizing room q c b step b' with
  | zero =>
    rw [Finset.sum_range_one, Nat.pow_zero]
    rcases apply_steps_cases h with hrefused | ⟨_, _, _, _, hdepth, _⟩
    · exact hrefused
    · have := hdepth d hmax
      omega
  | succ k ih =>
    rw [geom_sum_succ]
    rcases apply_steps_cases h with hrefused |
      ⟨room', b₁, x, b₂, _, hlimits, hdepth, hfirst, hrun, hlast⟩
    · omega
    · have hone (p : Rule) (e : Cursor) (b₂ : Budget) (step : Step) (b' : Budget)
          (hp : p ∈ r.reach s ∧ e.source = text) (hframe : b₁.Frame b₂)
          (hp' : p.apply s room' e b₂ = some (step, b')) :
          b'.steps ≤ b₂.steps+∑ i ∈ Finset.range (k+1), r.width s text.length^i := by
        refine ih hp.1 hp.2 ?_ ?_ hp'
        · rw [hframe.limits, hlimits, hmax]
        · rw [hframe.depth, hdepth, hk]
          omega
      have hplan : b₂.steps ≤ b₁.steps+(q.visits s room' c b₁).length*
          ∑ i ∈ Finset.range (k+1), r.width s text.length^i :=
        Plan.run_steps_le (k := confined s r text) (fun _ _ _ _ _ => apply_frame)
          (fun p e b o b' hp hp' => ⟨[], (hr.reach hs hp.1).apply_within hs hp'⟩) hone
          (hr.plan_confined hs hq hc) (.refl b₁) hrun
      have hwidth := ((hr.reach hs hq).visits_length_le hs room' c b₁).trans (width_ge hq hc)
      have hcost := Nat.mul_le_mul_right (∑ i ∈ Finset.range (k+1), r.width s text.length^i) hwidth
      omega

/-- On whatever limits, if there are any, a parse ends. It comes to what the rule comes to without
bounds on room and turns, in no more steps than there may be, and in no more than the depth allows
for. That the depth alone is enough rests on the loops: each iteration of a repetition begins behind
the one before it, and so does each delimiter of a list. -/
theorem limited_parse_ends (hs : s.Composed) (hr : r.Composed) (text : String) {l : Limits}
    (hl : l.maxDepth.isSome ∨ l.maxSteps.isSome) :
    (∃ step b, r.run s text.toList l = some (step, b) ∧
      (∀ step' b', r.Ends s (.start text.toList) (.fresh l) step' b' ↔ step' = step ∧ b' = b) ∧
      (∀ n, l.maxSteps = some n → b.steps ≤ n) ∧
      ∀ d, l.maxDepth = some d →
        b.steps ≤ ∑ i ∈ Finset.range (d+1), r.width s text.toList.length^i) ∧
    (r.parseWith s text l).isSome ∧ (r.parseAllWith s text l).isSome ∧
    (∀ q : Rule, q.Composed → ∀ room (c : Cursor) b,
      c.Ascends ((Rule.repeated q).visits s room c b)) ∧
    ∀ q delimiter : Rule, q.Composed → delimiter.Composed → ∀ trailing room (c : Cursor) b,
      c.Ascends (Plan.alternate
        ((Rule.separated q delimiter trailing).visits s room c b).tail) := by
  have hne : l ≠ .unbounded := by
    rintro rfl
    rcases hl with hl | hl <;> cases hl
  obtain ⟨⟨step, b⟩, hrun⟩ := Option.isSome_iff_exists.1 (run_isSome s r text.toList hne)
  have hparse {α : Type} (f : Step × Budget → α) : ((r.run s text.toList l).map f).isSome := by
    rw [hrun]
    rfl
  refine ⟨⟨step, b, hrun, fun step' b' => ?_, fun n hn => ?_, fun d hd => ?_⟩, hparse _,
    hparse _, ?_, ?_⟩
  · rw [hr.ends_iff hs, ← hr.run_eq_some_iff hs, hrun, Option.some.injEq, Prod.mk.injEq]
    exact and_congr eq_comm eq_comm
  · exact (apply_frame hrun).steps_le n hn (Nat.zero_le n)
  · have hsteps := hr.apply_steps_le hs (self_mem_reach s r) (Cursor.source_start _) hd
      (Nat.zero_add d).symm hrun
    exact hsteps.trans (Nat.zero_add _).le
  · exact fun q hq room c b => hq.visits_repeated hs room c b
  · exact fun q delimiter hq hd trailing room c b => hq.visits_separated hs hd trailing room c b

/-- Loops over rules that match nothing, and a rule that applies itself again where they leave
off. -/
theorem limited_parse_ends_recursive :
    let s : Store := ⟨[some (.sequence [.repeated (.optional (.literal "a")),
      .separated (.optional (.literal "b")) (.optional (.literal ",")) true, .recursive 0])], []⟩
    ∃ step b, run s (.recursive 0) "ab".toList ⟨some 6, none⟩ = some (step, b) ∧
      step = .error ⟨.depthLimit 6, 2⟩ ∧ b.steps = 19 ∧
      (∀ step' b', Rule.Ends s (.recursive 0) (.start "ab".toList)
        (.fresh ⟨some 6, none⟩) step' b' ↔ step' = step ∧ b' = b) ∧
      b.steps ≤ ∑ i ∈ Finset.range 7, width s (.recursive 0) 2^i := by
  intro s
  obtain ⟨⟨step, b, hrun, hends, _, hdepth⟩, _⟩ := limited_parse_ends (s := s) (r := .recursive 0)
    (by decide) (by decide) "ab" (l := ⟨some 6, none⟩) (.inl rfl)
  have hresult : step = .error ⟨.depthLimit 6, 2⟩ ∧ b.steps = 19 := by
    obtain ⟨rfl, rfl⟩ := Prod.mk.inj (Option.some.inj hrun)
    exact ⟨rfl, rfl⟩
  exact ⟨step, b, hrun, hresult.1, hresult.2, hends, hdepth 6 rfl⟩

end Rule

end Descent
