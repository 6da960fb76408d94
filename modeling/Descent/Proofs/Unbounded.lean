import Descent.Proofs.Offsets

namespace Descent

/-- What is left to do in an application: as a plan, but with repetitions that no number of turns
bounds. -/
inductive Course where
  | done (step : Step)
  | observe (run : Budget → Step)
  | apply (r : Rule) (c : Cursor) (next : Outcome → Course)
  /-- What is left of a repetition begun at `start`. -/
  | repeated (r : Rule) (start : Cursor) (values : List Value) (c : Cursor)
  /-- What is left of a list begun at `start`, behind an element. -/
  | elements (r delimiter : Rule) (trailing : Bool) (start : Cursor)
    (values : List Value) (c : Cursor)

namespace Course

def ofPlan : Plan → Course
  | .done step => .done step
  | .observe run => .observe run
  | .apply r c next => .apply r c fun o => ofPlan (next o)

def gather (values : List Value) (c d : Cursor) : Course := ofPlan (.gather values c d)

/-- One iteration of a repetition, and what is left of it if that advances. -/
def iteration (r : Rule) (start : Cursor) (values : List Value) (c : Cursor) : Course :=
  .apply r c fun
    | .success m =>
      if m.rest.offset ≤ c.offset then gather values start c
      else .repeated r start (m.value.collect values) m.rest
    | .failure _ => gather values start c

/-- One delimiter with the element behind it, and what is left of the list if that advances. -/
def round (r delimiter : Rule) (trailing : Bool) (start : Cursor) (values : List Value)
    (c : Cursor) : Course :=
  .apply delimiter c fun
    | .failure _ => gather values start c
    | .success d => .apply r d.rest fun
      | .failure _ => gather values start (if trailing then d.rest else c)
      | .success m =>
        if m.rest.offset ≤ c.offset then gather values start c
        else .elements r delimiter trailing start (m.value.collect values) m.rest

end Course

/-- What a rule does at a cursor. -/
def Rule.course (s : Store) : Rule → Cursor → Course
  | .repeated r, c => .repeated r c [] c
  | .separated r d trailing, c => .apply r c fun
    | .success m => .elements r d trailing c (m.value.collect []) m.rest
    | .failure f => .ofPlan (.fail f)
  | r, c => .ofPlan (r.plan s c)

/-- A course, begun on one budget, comes to a step and to another budget. -/
inductive Course.Ends (s : Store) : Course → Budget → Step → Budget → Prop
  | done (step : Step) (b : Budget) : Ends s (.done step) b step b
  | observe (run : Budget → Step) (b : Budget) : Ends s (.observe run) b (run b) b
  | refused {r : Rule} {c : Cursor} {next : Outcome → Course} {b b' : Budget} {f : Fault}
    (h : b.enter c.offset = (.error f, b')) : Ends s (.apply r c next) b (.error f) b'
  | fault {r : Rule} {c : Cursor} {next : Outcome → Course} {b b₁ b₂ : Budget} {f : Fault}
    (h : b.enter c.offset = (.ok (), b₁)) (hr : Ends s (r.course s c) b₁ (.error f) b₂) :
    Ends s (.apply r c next) b (.error f) (b₂.close (.error f))
  | go {r : Rule} {c : Cursor} {next : Outcome → Course} {b b₁ b₂ b' : Budget}
    {o : Outcome} {step : Step}
    (h : b.enter c.offset = (.ok (), b₁)) (hr : Ends s (r.course s c) b₁ (.ok o) b₂)
    (hn : Ends s (next o) (b₂.close (.ok o)) step b') : Ends s (.apply r c next) b step b'
  | repeated {r : Rule} {start : Cursor} {values : List Value} {c : Cursor}
    {b b' : Budget} {step : Step}
    (h : Ends s (iteration r start values c) b step b') :
    Ends s (.repeated r start values c) b step b'
  | elements {r delimiter : Rule} {trailing : Bool} {start : Cursor} {values : List Value}
    {c : Cursor} {b b' : Budget} {step : Step}
    (h : Ends s (round r delimiter trailing start values c) b step b') :
    Ends s (.elements r delimiter trailing start values c) b step b'

/-- The application of a rule at a cursor, begun on one budget, comes to a step and to another
budget. -/
def Rule.Ends (s : Store) (r : Rule) (c : Cursor) (b : Budget) (step : Step) (b' : Budget) : Prop :=
  Course.Ends s (.ofPlan (.forward r c)) b step b'

namespace Rule

variable {s : Store} {r : Rule} {c : Cursor} {b b' : Budget}

theorem ends_refused {f : Fault} (h : b.enter c.offset = (.error f, b')) :
    r.Ends s c b (.error f) b' :=
  .refused h

theorem ends_course {b₁ b₂ : Budget} {step : Step} (h : b.enter c.offset = (.ok (), b₁))
    (hr : (r.course s c).Ends s b₁ step b₂) : r.Ends s c b step (b₂.close step) := by
  cases step with
  | error f => exact .fault h hr
  | ok o => exact .go h hr (.done _ _)

theorem ends_stop {next : Outcome → Course} {f : Fault} (h : r.Ends s c b (.error f) b') :
    (Course.apply r c next).Ends s b (.error f) b' := by
  cases h with
  | refused h => exact .refused h
  | fault h hr => exact .fault h hr
  | go _ _ hn => cases hn

theorem ends_go {next : Outcome → Course} {o : Outcome} {b₁ : Budget} {step : Step}
    (h : r.Ends s c b (.ok o) b₁) (hn : (next o).Ends s b₁ step b') :
    (Course.apply r c next).Ends s b step b' := by
  cases h with
  | go h hr hdone =>
    cases hdone
    exact .go h hr hn

end Rule

namespace Course

/-- The plan that gives each repetition as many turns as there are characters. -/
def plan : Course → Plan
  | .done step => .done step
  | .observe run => .observe run
  | .apply r c next => .apply r c fun o => (next o).plan
  | .repeated r start values c => .repeated r start c.after.length values c
  | .elements r delimiter trailing start values c =>
    .elements r delimiter trailing start c.after.length values c

@[simp] theorem plan_ofPlan (p : Plan) : (ofPlan p).plan = p := by
  induction p with
  | done | observe => rfl
  | apply r c next ih => exact congrArg (Plan.apply r c) (funext ih)

end Course

theorem Rule.plan_course (s : Store) (r : Rule) (c : Cursor) :
    (r.course s c).plan = r.plan s c := by
  cases r with
  | repeated => rfl
  | separated r d trailing =>
    refine congrArg (Plan.apply r c) (funext fun o => ?_)
    cases o <;> rfl
  | _ => exact Course.plan_ofPlan _

theorem Cursor.Reaches.length_le {c d : Cursor} (h : c.Reaches d) :
    d.after.length ≤ c.after.length := by
  obtain ⟨taken, _, hafter⟩ := h.slice?
  rw [hafter, List.length_append]
  exact Nat.le_add_left _ _

theorem Cursor.Reaches.length_lt {c d : Cursor} (h : c.Reaches d) (hd : c.offset < d.offset) :
    d.after.length < c.after.length := by
  obtain ⟨taken, _, hafter⟩ := h.slice?
  have hne : taken ≠ [] := by
    rintro rfl
    -- Nothing between the cursors would put them at one place.
    have hbytes := congrArg Text.byteLength h.1
    simp only [source, Text.byteLength_append, Text.byteLength_reverse, ← offset_eq] at hbytes
    rw [hafter] at hbytes
    simp only [List.nil_append] at hbytes
    omega
  have hpos := List.length_pos_iff.2 hne
  rw [hafter, List.length_append]
  omega

namespace Plan

/-- The rule stays in the source, and never goes back. -/
def Forwards (apply : Rule → Cursor → Budget → Applied) (r : Rule) : Prop :=
  ∀ c b m b', apply r c b = some (.ok (.success m), b') → c.Reaches m.rest

variable {apply : Rule → Cursor → Budget → Applied}

theorem run_apply_congr {r : Rule} {c : Cursor} {next next' : Outcome → Plan} {b : Budget}
    (h : ∀ o b', apply r c b = some (.ok o, b') → (next o).run apply b' = (next' o).run apply b') :
    (Plan.apply r c next).run apply b = (Plan.apply r c next').run apply b := by
  rw [run, run]
  split
  · exact h _ _ ‹_›
  · rfl
  · rfl

/-- A loop of which each round advances needs no more turns than there are characters. -/
theorem loop_run (apply : Rule → Cursor → Budget → Applied)
    (loop : Nat → List Value → Cursor → Plan)
    (body : (List Value → Cursor → Plan) → List Value → Cursor → Plan)
    (hzero : ∀ values c, ∃ next, loop 0 values c = body next values c)
    (hsucc : ∀ turns values c, loop (turns+1) values c = body (loop turns) values c)
    (hbody : ∀ next next' values c b,
      (∀ values' d b', d.after.length < c.after.length →
        (next values' d).run apply b' = (next' values' d).run apply b') →
      (body next values c).run apply b = (body next' values c).run apply b)
    (turns : Nat) (values : List Value) (c : Cursor) (b : Budget) (h : c.after.length ≤ turns) :
    (loop turns values c).run apply b =
      (body (fun values d => loop d.after.length values d) values c).run apply b := by
  induction hn : c.after.length using Nat.strongRecOn generalizing turns values c b with
  | ind n ih =>
    have hunfold : ∃ next, loop turns values c = body next values c ∧
        ∀ values' d b', d.after.length < c.after.length →
          (next values' d).run apply b' = (loop d.after.length values' d).run apply b' := by
      cases turns with
      | zero =>
        obtain ⟨next, hnext⟩ := hzero values c
        exact ⟨next, hnext, fun _ d _ hd => absurd hd (by omega)⟩
      | succ turns =>
        refine ⟨loop turns, hsucc turns values c, fun values' d b' hd => ?_⟩
        have hlt : d.after.length < n := hn ▸ hd
        rw [ih d.after.length hlt turns values' d b' (by omega) rfl,
          ih d.after.length hlt d.after.length values' d b' (Nat.le_refl _) rfl]
    obtain ⟨next, hloop, hnext⟩ := hunfold
    rw [hloop]
    exact hbody _ _ _ _ _ hnext

theorem repeated_run {r : Rule} (hr : Forwards apply r) {start : Cursor}
    (values : List Value) (c : Cursor) (b : Budget) :
    (repeated r start c.after.length values c).run apply b =
      (Course.iteration r start values c).plan.run apply b := by
  have h := loop_run apply (repeated r start)
    (fun next values c => .apply r c fun
      | .success m =>
        if m.rest.offset ≤ c.offset then gather values start c
        else next (m.value.collect values) m.rest
      | .failure _ => gather values start c)
    (fun values c => ⟨fun _ _ => gather values start c, ?_⟩) (fun _ _ _ => rfl) ?_
    c.after.length values c b (Nat.le_refl _)
  · rw [h]
    refine congrArg (fun p => Plan.run apply p b) (congrArg (Plan.apply r c) (funext fun o => ?_))
    cases o with
    | success m =>
      dsimp only
      split <;> simp [Course.gather, Course.plan]
    | failure => exact (Course.plan_ofPlan _).symm
  · refine congrArg (Plan.apply r c) (funext fun o => ?_)
    cases o with
    | success m => exact (ite_self _).symm
    | failure => rfl
  · intro next next' values c b hnext
    refine run_apply_congr fun o b' ho => ?_
    cases o with
    | success m =>
      dsimp only
      split
      · rfl
      · exact hnext _ _ _ ((hr c b m b' ho).length_lt (by omega))
    | failure => rfl

theorem elements_run {r delimiter : Rule} (hr : Forwards apply r) (hd : Forwards apply delimiter)
    {trailing : Bool} {start : Cursor} (values : List Value) (c : Cursor) (b : Budget) :
    (elements r delimiter trailing start c.after.length values c).run apply b =
      (Course.round r delimiter trailing start values c).plan.run apply b := by
  have h := loop_run apply (elements r delimiter trailing start)
    (fun next => round r delimiter trailing start next)
    (fun values c => ⟨_, rfl⟩) (fun _ _ _ => rfl) ?_ c.after.length values c b (Nat.le_refl _)
  · rw [h]
    refine congrArg (fun p => Plan.run apply p b)
      (congrArg (Plan.apply delimiter c) (funext fun o => ?_))
    cases o with
    | success d =>
      refine congrArg (Plan.apply r d.rest) (funext fun o => ?_)
      cases o with
      | success m =>
        dsimp only
        split <;> simp [Course.gather, Course.plan]
      | failure => exact (Course.plan_ofPlan _).symm
    | failure => exact (Course.plan_ofPlan _).symm
  · intro next next' values c b hnext
    refine run_apply_congr fun o b₁ ho => ?_
    cases o with
    | success d =>
      refine run_apply_congr fun o b₂ ho' => ?_
      cases o with
      | success m =>
        dsimp only
        split
        · rfl
        · have hreaches := (hd c b d b₁ ho).trans (hr d.rest b₁ m b₂ ho')
          exact hnext _ _ _ (hreaches.length_lt (by omega))
      | failure => rfl
    | failure => rfl

end Plan

namespace Course

/-- Nothing is applied but composed rules. -/
def Composed : Course → Prop
  | .done _ => True
  | .observe _ => False
  | .apply r _ next => r.Composed ∧ ∀ o, (next o).Composed
  | .repeated r _ _ _ => r.Composed
  | .elements r delimiter _ _ _ _ => r.Composed ∧ delimiter.Composed

theorem composed_ofPlan {rules : List Rule} (h : ∀ r ∈ rules, r.Composed) {p : Plan}
    {es : List Event} (hp : p.Meets (Plan.among rules) (fun _ _ => True) es) :
    (ofPlan p).Composed := by
  induction p generalizing es with
  | done => trivial
  | observe => exact hp.elim
  | apply r c next ih => exact ⟨h r hp.1, fun o => ih o (hp.2.2 [] o trivial)⟩

theorem composed_iteration {r : Rule} (hr : r.Composed) (start : Cursor) (values : List Value)
    (c : Cursor) : (iteration r start values c).Composed := by
  refine ⟨hr, fun o => ?_⟩
  cases o with
  | success m =>
    dsimp only
    split
    · trivial
    · exact hr
  | failure => trivial

theorem composed_round {r delimiter : Rule} (hr : r.Composed) (hd : delimiter.Composed)
    (trailing : Bool) (start : Cursor) (values : List Value) (c : Cursor) :
    (round r delimiter trailing start values c).Composed := by
  refine ⟨hd, fun o => ?_⟩
  cases o with
  | success d =>
    refine ⟨hr, fun o => ?_⟩
    cases o with
    | success m =>
      dsimp only
      split
      · trivial
      · exact ⟨hr, hd⟩
    | failure => trivial
  | failure => trivial

end Course

namespace Rule

variable {s : Store} {r : Rule} {c : Cursor} {b b' : Budget} {step : Step}

theorem Composed.course (h : r.Composed) (hs : s.Composed) (c : Cursor) :
    (r.course s c).Composed := by
  have hplan := Course.composed_ofPlan (fun q hq => h.callee hs hq) (h.plan_among (s := s) c [])
  cases h with
  | repeated h => exact h
  | separated hr hd =>
    refine ⟨hr, fun o => ?_⟩
    cases o with
    | success => exact ⟨hr, hd⟩
    | failure => trivial
  | _ => exact hplan

theorem Composed.forwards (hs : s.Composed) (hr : r.Composed) (room : Nat) :
    Plan.Forwards (Rule.apply s room) r := fun _ _ _ _ h => (hr.apply_within hs h).2

end Rule

namespace Course

variable {s : Store} {room : Nat}

/-- In some room, what the rule comes to is what it comes to without bounds. -/
def Complete (s : Store) (room : Nat) (r : Rule) : Prop :=
  ∀ c b step b', r.apply s room c b = some (step, b') → r.Ends s c b step b'

theorem ends_apply {r : Rule} (h : Complete s room r) {c : Cursor} {next : Outcome → Course}
    {b b' : Budget} {step : Step}
    (hn : ∀ o b₁, r.apply s room c b = some (.ok o, b₁) →
      (next o).plan.run (Rule.apply s room) b₁ = some (step, b') → (next o).Ends s b₁ step b')
    (hrun : (apply r c next).plan.run (Rule.apply s room) b = some (step, b')) :
    (apply r c next).Ends s b step b' := by
  rw [plan, Plan.run] at hrun
  split at hrun
  · rename_i o b₁ ha
    exact Rule.ends_go (h c b _ b₁ ha) (hn o b₁ ha hrun)
  · rename_i f b₁ ha
    obtain ⟨rfl, rfl⟩ := Prod.mk.inj (Option.some.inj hrun)
    exact Rule.ends_stop (h c b _ b₁ ha)
  · cases hrun

theorem ends_gather {values : List Value} {c d : Cursor} {b b' : Budget} {step : Step}
    (hrun : (gather values c d).plan.run (Rule.apply s room) b = some (step, b')) :
    (gather values c d).Ends s b step b' := by
  obtain ⟨rfl, rfl⟩ := Prod.mk.inj (Option.some.inj hrun)
  exact .done _ _

theorem ends_repeated {r : Rule} (h : Complete s room r) (hf : Plan.Forwards (Rule.apply s room) r)
    {start : Cursor} {values : List Value} {c : Cursor} {b b' : Budget} {step : Step}
    (hrun : (repeated r start values c).plan.run (Rule.apply s room) b = some (step, b')) :
    (repeated r start values c).Ends s b step b' := by
  induction hn : c.after.length using Nat.strongRecOn generalizing values c b with
  | ind n ih =>
    rw [plan, Plan.repeated_run hf] at hrun
    refine .repeated (ends_apply h (fun o b₁ ho ho' => ?_) hrun)
    cases o with
    | success m =>
      dsimp only at ho' ⊢
      by_cases hstop : m.rest.offset ≤ c.offset
      · rw [if_pos hstop] at ho' ⊢
        exact ends_gather ho'
      · rw [if_neg hstop] at ho' ⊢
        have hlt := (hf c b m b₁ ho).length_lt (Nat.lt_of_not_le hstop)
        exact ih _ (hn ▸ hlt) ho' rfl
    | failure => exact ends_gather ho'

theorem ends_elements {r delimiter : Rule} (hr : Complete s room r) (hd : Complete s room delimiter)
    (hfr : Plan.Forwards (Rule.apply s room) r) (hfd : Plan.Forwards (Rule.apply s room) delimiter)
    {trailing : Bool} {start : Cursor} {values : List Value} {c : Cursor}
    {b b' : Budget} {step : Step}
    (hrun : (elements r delimiter trailing start values c).plan.run (Rule.apply s room) b =
      some (step, b')) :
    (elements r delimiter trailing start values c).Ends s b step b' := by
  induction hn : c.after.length using Nat.strongRecOn generalizing values c b with
  | ind n ih =>
    rw [plan, Plan.elements_run hfr hfd] at hrun
    refine .elements (ends_apply hd (fun o b₁ ho ho' => ?_) hrun)
    cases o with
    | success d =>
      refine ends_apply hr (fun o b₂ hm hm' => ?_) ho'
      cases o with
      | success m =>
        dsimp only at hm' ⊢
        by_cases hstop : m.rest.offset ≤ c.offset
        · rw [if_pos hstop] at hm' ⊢
          exact ends_gather hm'
        · rw [if_neg hstop] at hm' ⊢
          have hreaches := (hfd c b d b₁ ho).trans (hfr d.rest b₁ m b₂ hm)
          have hlt := hreaches.length_lt (Nat.lt_of_not_le hstop)
          exact ih _ (hn ▸ hlt) hm' rfl
      | failure => exact ends_gather hm'
    | failure => exact ends_gather ho'

theorem ends_of_run (hs : s.Composed) (h : ∀ r : Rule, r.Composed → Complete s room r) {k : Course}
    (hk : k.Composed) {b b' : Budget} {step : Step}
    (hrun : k.plan.run (Rule.apply s room) b = some (step, b')) : k.Ends s b step b' := by
  induction k generalizing b with
  | done =>
    obtain ⟨rfl, rfl⟩ := Prod.mk.inj (Option.some.inj hrun)
    exact .done _ _
  | observe => exact hk.elim
  | apply r c next ih => exact ends_apply (h r hk.1) (fun o b₁ _ ho => ih o (hk.2 o) ho) hrun
  | repeated r => exact ends_repeated (h r hk) (hk.forwards hs room) hrun
  | elements r delimiter =>
    exact ends_elements (h r hk.1) (h delimiter hk.2) (hk.1.forwards hs room)
      (hk.2.forwards hs room) hrun

/-- What comes of a course comes of its plan in some room. -/
theorem Ends.run (hs : s.Composed) {k : Course} {b b' : Budget} {step : Step}
    (h : k.Ends s b step b') (hk : k.Composed) :
    ∃ room, k.plan.run (Rule.apply s room) b = some (step, b') := by
  induction h with
  | done | observe => exact ⟨0, rfl⟩
  | refused h =>
    refine ⟨1, ?_⟩
    simp only [plan, Plan.run, Rule.apply, h]
  | fault h hr ih =>
    obtain ⟨room, hroom⟩ := ih (hk.1.course hs _)
    rw [Rule.plan_course] at hroom
    refine ⟨room+1, ?_⟩
    simp only [plan, Plan.run, Rule.apply, h, hroom, Option.map_some]
  | @go r c next b b₁ b₂ b' o step h hr hn ihr ihn =>
    obtain ⟨room, hroom⟩ := ihr (hk.1.course hs _)
    obtain ⟨room', hroom'⟩ := ihn (hk.2 _)
    rw [Rule.plan_course] at hroom
    have happly : r.apply s (room+1) c b = some (.ok o, b₂.close (.ok o)) := by
      simp only [Rule.apply, h, hroom, Option.map_some]
    refine ⟨max (room+1) room', ?_⟩
    rw [plan, Plan.run, Rule.apply_mono (Nat.le_max_left _ _) happly]
    exact Plan.run_mono (fun _ _ _ _ => Rule.apply_mono (Nat.le_max_right _ _)) _ _ hroom'
  | repeated h ih =>
    obtain ⟨room, hroom⟩ := ih (composed_iteration hk _ _ _)
    exact ⟨room, (Plan.repeated_run (hk.forwards hs room) _ _ _).trans hroom⟩
  | elements h ih =>
    obtain ⟨room, hroom⟩ := ih (composed_round hk.1 hk.2 _ _ _ _)
    exact ⟨room, (Plan.elements_run (hk.1.forwards hs room) (hk.2.forwards hs room) _ _ _).trans
      hroom⟩

end Course

namespace Rule

variable {s : Store} {r : Rule} {c : Cursor} {b b' : Budget} {step : Step}

theorem Composed.complete (hs : s.Composed) (hr : r.Composed) (room : Nat) :
    Course.Complete s room r := by
  induction room generalizing r with
  | zero =>
    intro c b step b' h
    cases h
  | succ room ih =>
    intro c b step b' h
    rw [apply] at h
    cases he : b.enter c.offset with
    | mk e b₁ =>
      rw [he] at h
      cases e with
      | error f =>
        obtain ⟨rfl, rfl⟩ := Prod.mk.inj (Option.some.inj h)
        exact ends_refused he
      | ok =>
        obtain ⟨⟨x, b₂⟩, hrun, hx⟩ := Option.map_eq_some_iff.1 h
        obtain ⟨rfl, rfl⟩ := Prod.mk.inj hx
        rw [← plan_course] at hrun
        exact ends_course he (Course.ends_of_run hs (fun q hq => ih hq) (hr.course hs c) hrun)

/-- What an application comes to without bounds it comes to in some room, and the other way
round. -/
theorem Composed.ends_iff (hs : s.Composed) (hr : r.Composed) :
    r.Ends s c b step b' ↔ ∃ room, r.apply s room c b = some (step, b') := by
  constructor
  · intro h
    obtain ⟨room, hroom⟩ := Course.Ends.run hs h ⟨hr, fun _ => trivial⟩
    rw [Course.plan_ofPlan, Plan.forward, Plan.run] at hroom
    refine ⟨room, ?_⟩
    split at hroom
    · rename_i o b₁ ha
      obtain ⟨rfl, rfl⟩ := Prod.mk.inj (Option.some.inj hroom)
      exact ha
    · rename_i f b₁ ha
      obtain ⟨rfl, rfl⟩ := Prod.mk.inj (Option.some.inj hroom)
      exact ha
    · cases hroom
  · rintro ⟨room, h⟩
    exact hr.complete hs room c b step b' h

end Rule

end Descent
