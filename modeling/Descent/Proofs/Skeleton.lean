import Descent.Proofs.Parts

namespace Descent

/-- What is taken off a rule. -/
inductive Peel where
  | labels
  /-- Labels, and all rules that do no more than change the value of the rule inside. -/
  | wrappers
  deriving DecidableEq

namespace Rule

mutual

/-- The rule with what is taken off replaced by the rule inside it, at any depth. -/
def peel (k : Peel) : Rule → Rule
  | .token p => .token p
  | .choice rs => .choice (peelList k rs)
  | .sequence rs => .sequence (peelList k rs)
  | .repeated r => .repeated (r.peel k)
  | .separated r d trailing => .separated (r.peel k) (d.peel k) trailing
  | .enclosed l r t => .enclosed (l.peel k) (r.peel k) (t.peel k)
  | .pair a b d => .pair (a.peel k) (b.peel k) (d.peel k)
  | .mapped r f => match k with
    | .labels => .mapped (r.peel k) f
    | .wrappers => r.peel k
  | .discard r => match k with
    | .labels => .discard (r.peel k)
    | .wrappers => r.peel k
  | .optional r => .optional (r.peel k)
  | .label r _ => r.peel k
  | .endOfInput => .endOfInput
  | .handle c => .handle c
  | .recursive c => .recursive c
  | .reference g name => .reference g name
  | .registered g r => .registered g (r.peel k)
  | .primitive run => .primitive run
  | .adapt r change => .adapt (r.peel k) change

def peelList (k : Peel) : List Rule → List Rule
  | [] => []
  | r :: rs => r.peel k :: peelList k rs

end

@[simp] theorem peelList_eq (k : Peel) (rs : List Rule) : peelList k rs = rs.map (peel k) := by
  induction rs with
  | nil => rfl
  | cons r rs ih => rw [peelList, ih, List.map_cons]

/-- The rule inside, if the rule around it is taken off. -/
def inside? : Peel → Rule → Option Rule
  | _, .label r _ => some r
  | .wrappers, .mapped r _ | .wrappers, .discard r => some r
  | _, _ => none

theorem inside?_child {k : Peel} {r q : Rule} (h : r.inside? k = some q) :
    q ∈ r.children ∧ r.peel k = q.peel k := by
  cases k <;> cases r <;> simp only [inside?, Option.some.injEq, reduceCtorEq] at h <;> subst h <;>
    exact ⟨List.mem_cons_self, by simp only [peel]⟩

theorem Composed.peel {r : Rule} (h : r.Composed) (k : Peel) : (r.peel k).Composed := by
  induction r using childInduction with
  | h r ih =>
    have hchild {q : Rule} (hq : q ∈ r.children) : (q.peel k).Composed :=
      ih q hq (h.part (mem_parts_of_child hq q.self_mem_parts))
    cases h with
    | token | endOfInput | handle | recursive | reference =>
      rw [Rule.peel]
      constructor
    | choice | sequence =>
      rw [Rule.peel, peelList_eq]
      constructor
      intro p hp
      obtain ⟨q, hq, rfl⟩ := List.mem_map.1 hp
      exact hchild hq
    | repeated | optional | registered =>
      rw [Rule.peel]
      constructor
      exact hchild List.mem_cons_self
    | separated | enclosed | pair =>
      rw [Rule.peel]
      constructor <;> exact hchild (by simp [children])
    | mapped | discard =>
      cases k with
      | labels =>
        rw [Rule.peel]
        constructor
        exact hchild List.mem_cons_self
      | wrappers =>
        rw [Rule.peel]
        exact hchild List.mem_cons_self
    | label =>
      rw [Rule.peel]
      exact hchild List.mem_cons_self

end Rule

namespace Store

/-- The store with all its rules peeled. -/
def peel (k : Peel) (s : Store) : Store where
  cells := s.cells.map (Option.map (Rule.peel k))
  registries := s.registries.map (Keyed.map (Rule.peel k))

variable {s : Store} (k : Peel)

theorem cell?_peel (s : Store) (c : CellId) :
    (s.peel k).cell? c = (s.cell? c).map (Rule.peel k) := by
  simp only [cell?, peel, List.getElem?_map]
  cases s.cells[c]? with
  | none => rfl
  | some cell => rfl

theorem bound?_peel (s : Store) (g : RegistryId) (name : String) :
    (s.peel k).bound? g name = (s.bound? g name).map (Rule.peel k) := by
  have hregistry : (s.peel k).registry g = (s.registry g).map (Rule.peel k) := by
    simp only [registry, peel, List.getElem?_map]
    cases s.registries[g]? with
    | none => rfl
    | some es => rfl
  rw [bound?, hregistry, Keyed.get?_map]
  rfl

theorem Composed.peel (h : s.Composed) : (s.peel k).Composed := by
  intro r hr
  rcases List.mem_append.1 hr with hr | hr
  · obtain ⟨cell, hcell, rfl⟩ := List.mem_filterMap.1 hr
    obtain ⟨cell', hcell', hpeel⟩ := List.mem_map.1 hcell
    obtain ⟨q, rfl, rfl⟩ := Option.map_eq_some_iff.1 hpeel
    exact (h q (List.mem_append_left _ (List.mem_filterMap.2 ⟨_, hcell', rfl⟩))).peel k
  · obtain ⟨es, hes, hr⟩ := List.mem_flatMap.1 hr
    obtain ⟨es', hes', rfl⟩ := List.mem_map.1 hes
    obtain ⟨e, he, rfl⟩ := List.mem_map.1 hr
    obtain ⟨e', he', rfl⟩ := List.mem_map.1 he
    exact (h e'.2 (List.mem_append_right _
      (List.mem_flatMap.2 ⟨es', hes', List.mem_map_of_mem he'⟩))).peel k

end Store

/-- The matches are one, apart from their values if more than labels is taken off. -/
structure Match.Alike (k : Peel) (m m' : Match) : Prop where
  span : m'.span = m.span
  rest : m'.rest = m.rest
  value : k = .labels → m'.value = m.value

/-- The outcomes are one, apart from values and from what failures expect. -/
inductive Outcome.Alike (k : Peel) : Outcome → Outcome → Prop
  | success {m m' : Match} (h : m.Alike k m') : Alike k (.success m) (.success m')
  | failure {f g : Failure} (h : g.offset = f.offset) : Alike k (.failure f) (.failure g)

/-- The outcomes are, and faults are the same. -/
inductive Step.Alike (k : Peel) : Step → Step → Prop
  | ok {o o' : Outcome} (h : o.Alike k o') : Alike k (.ok o) (.ok o')
  | error (f : Fault) : Alike k (.error f) (.error f)

/-- A transform that is taken off has refused a value. -/
def Step.Spoiled (k : Peel) (step : Step) : Prop :=
  k = .wrappers ∧ ∃ f : Fault, step = .error f ∧ f.kind = .transform

theorem Match.Alike.refl (k : Peel) (m : Match) : m.Alike k m := ⟨rfl, rfl, fun _ => rfl⟩

theorem Outcome.Alike.trans {k : Peel} {o o' o'' : Outcome} (h : o.Alike k o')
    (h' : o'.Alike k o'') : o.Alike k o'' := by
  cases h with
  | success h =>
    obtain ⟨h'⟩ := h'
    exact .success ⟨h'.span.trans h.span, h'.rest.trans h.rest,
      fun hk => (h'.value hk).trans (h.value hk)⟩
  | failure h =>
    cases h' with
    | failure h' => exact .failure (h'.trans h)

theorem Step.Alike.trans {k : Peel} {step step' step'' : Step} (h : step.Alike k step')
    (h' : step'.Alike k step'') : step.Alike k step'' := by
  cases h with
  | ok h =>
    obtain ⟨h'⟩ := h'
    exact .ok (h.trans h')
  | error f => exact h'

theorem Step.Alike.spoiled {k : Peel} {step step' : Step} (h : step.Alike k step')
    (hs : step'.Spoiled k) : step.Spoiled k := by
  cases h with
  | ok h =>
    obtain ⟨_, f, hf, _⟩ := hs
    cases hf
  | error f => exact hs

/-- The plans are one but for what is taken off the rules that they apply, and what these come
to. -/
inductive Plan.Alike (k : Peel) : Plan → Plan → Prop
  | done {step step' : Step} (h : step.Alike k step') : Alike k (.done step) (.done step')
  | apply {r : Rule} {c : Cursor} {next next' : Outcome → Plan} (hr : r.Composed)
    (h : ∀ o o', o.Alike k o' → Alike k (next o) (next' o')) :
    Alike k (.apply r c next) (.apply (r.peel k) c next')

namespace Plan

variable {k : Peel} {r delimiter : Rule} {c : Cursor}

theorem fail_alike {f g : Failure} (h : g.offset = f.offset) : (fail f).Alike k (fail g) :=
  .done (.ok (.failure h))

theorem succeed_alike {m m' : Match} (h : m.Alike k m') : (succeed m).Alike k (succeed m') :=
  .done (.ok (.success h))

theorem consume_alike {v v' : Value} (h : k = .labels → v' = v) (c d : Cursor) :
    (consume v c d).Alike k (consume v' c d) := succeed_alike ⟨rfl, rfl, h⟩

theorem gather_alike {values values' : List Value} (h : k = .labels → values' = values)
    (c d : Cursor) : (gather values c d).Alike k (gather values' c d) :=
  consume_alike (fun hk => congrArg (fun vs => Value.list vs.reverse) (h hk)) c d

theorem apply_alike (hr : r.Composed) {next next' : Outcome → Plan}
    (hhit : ∀ m m', m.Alike k m' → (next (.success m)).Alike k (next' (.success m')))
    (hmiss : ∀ f g, g.offset = f.offset → (next (.failure f)).Alike k (next' (.failure g))) :
    (Plan.apply r c next).Alike k (Plan.apply (r.peel k) c next') := by
  refine .apply hr fun o o' ho => ?_
  cases ho with
  | success h => exact hhit _ _ h
  | failure h => exact hmiss _ _ h

theorem require_alike (hr : r.Composed) {next next' : Match → Plan}
    (h : ∀ m m', m.Alike k m' → (next m).Alike k (next' m')) :
    (require r c next).Alike k (require (r.peel k) c next') :=
  apply_alike hr h fun _ _ => fail_alike

theorem forward_alike (hr : r.Composed) (c : Cursor) :
    (forward r c).Alike k (forward (r.peel k) c) :=
  .apply hr fun _ _ h => .done (.ok h)

theorem bound_alike {found : Option Rule} (h : ∀ r ∈ found, r.Composed) (name : String)
    (c : Cursor) : (bound found name c).Alike k (bound (found.map (Rule.peel k)) name c) := by
  cases found with
  | none => exact .done (.error _)
  | some r => exact forward_alike (h r rfl) c

theorem choice_alike {rs : List Rule} (hrs : ∀ r ∈ rs, r.Composed) {f g : Failure}
    (h : g.offset = f.offset) : (choice c f rs).Alike k (choice c g (rs.map (Rule.peel k))) := by
  induction rs generalizing f g with
  | nil => exact fail_alike h
  | cons r rs ih =>
    refine apply_alike (hrs r List.mem_cons_self) (fun _ _ => succeed_alike) fun f' g' _ => ?_
    exact ih (fun q hq => hrs q (List.mem_cons_of_mem r hq)) h

/-- Collecting depends on values, which are one as long as only labels are taken off. -/
theorem collect_alike {m m' : Match} (hm : m.Alike k m') {values values' : List Value}
    (h : k = .labels → values' = values) :
    k = .labels → m'.value.collect values' = m.value.collect values := by
  intro hk
  rw [hm.value hk, h hk]

theorem sequence_alike {rs : List Rule} (hrs : ∀ r ∈ rs, r.Composed) (start : Cursor)
    {values values' : List Value} (h : k = .labels → values' = values) :
    (sequence start values c rs).Alike k (sequence start values' c (rs.map (Rule.peel k))) := by
  induction rs generalizing values values' c with
  | nil => exact gather_alike h start c
  | cons r rs ih =>
    refine require_alike (hrs r List.mem_cons_self) fun m m' hm => ?_
    rw [hm.rest]
    exact ih (fun q hq => hrs q (List.mem_cons_of_mem r hq)) (collect_alike hm h)

theorem repeated_alike (hr : r.Composed) (start : Cursor) (turns : Nat)
    {values values' : List Value} (h : k = .labels → values' = values) :
    (repeated r start turns values c).Alike k (repeated (r.peel k) start turns values' c) := by
  induction turns generalizing values values' c with
  | zero => exact .apply hr fun _ _ _ => gather_alike h start c
  | succ turns ih =>
    refine apply_alike hr (fun m m' hm => ?_) fun _ _ _ => gather_alike h start c
    dsimp only
    rw [hm.rest]
    split
    · exact gather_alike h start c
    · exact ih (collect_alike hm h)

theorem round_alike (hr : r.Composed) (hd : delimiter.Composed) (trailing : Bool) (start : Cursor)
    {next next' : List Value → Cursor → Plan}
    (hnext : ∀ values values' c, (k = .labels → values' = values) →
      (next values c).Alike k (next' values' c))
    {values values' : List Value} (h : k = .labels → values' = values) :
    (round r delimiter trailing start next values c).Alike k
      (round (r.peel k) (delimiter.peel k) trailing start next' values' c) := by
  refine apply_alike hd (fun d d' hd' => ?_) fun _ _ _ => gather_alike h start c
  dsimp only
  rw [hd'.rest]
  refine apply_alike hr (fun m m' hm => ?_) fun _ _ _ => gather_alike h start _
  dsimp only
  rw [hm.rest]
  split
  · exact gather_alike h start c
  · exact hnext _ _ _ (collect_alike hm h)

theorem elements_alike (hr : r.Composed) (hd : delimiter.Composed) (trailing : Bool)
    (start : Cursor) (turns : Nat) {values values' : List Value}
    (h : k = .labels → values' = values) :
    (elements r delimiter trailing start turns values c).Alike k
      (elements (r.peel k) (delimiter.peel k) trailing start turns values' c) := by
  induction turns generalizing values values' c with
  | zero => exact round_alike hr hd trailing start (fun _ _ _ _ => gather_alike h start c) h
  | succ turns ih =>
    exact round_alike hr hd trailing start (fun _ _ d hvalues => ih (c := d) hvalues) h

end Plan

namespace Rule

variable {s : Store} {r : Rule} {k : Peel}

theorem Composed.plan_alike (hs : s.Composed) (hr : r.Composed) (hk : r.inside? k = none)
    (c : Cursor) : (r.plan s c).Alike k ((r.peel k).plan (s.peel k) c) := by
  have hcell (cell : CellId) : (Plan.bound (s.cell? cell) Plan.recursiveName c).Alike k
      (Plan.bound ((s.peel k).cell? cell) Plan.recursiveName c) := by
    rw [s.cell?_peel]
    exact Plan.bound_alike (fun q hq => hs q (Store.mem_rules_of_cell hq)) _ c
  cases hr with
  | token p =>
    simp only [Rule.peel, plan, Plan.token]
    split
    · exact Plan.consume_alike (fun _ => rfl) c _
    · exact Plan.fail_alike rfl
  | choice h =>
    rw [Rule.peel, peelList_eq]
    exact Plan.choice_alike h rfl
  | sequence h =>
    rw [Rule.peel, peelList_eq]
    exact Plan.sequence_alike h c fun _ => rfl
  | repeated h =>
    rw [Rule.peel]
    exact Plan.repeated_alike h c _ fun _ => rfl
  | separated hr hd trailing =>
    rw [Rule.peel]
    refine Plan.require_alike hr fun m m' hm => ?_
    rw [hm.rest]
    exact Plan.elements_alike hr hd trailing c _ (Plan.collect_alike hm fun _ => rfl)
  | enclosed hl hr ht =>
    rw [Rule.peel]
    refine Plan.require_alike hl fun l l' hl => ?_
    rw [hl.rest]
    refine Plan.require_alike hr fun m m' hm => ?_
    rw [hm.rest]
    refine Plan.require_alike ht fun n n' hn => ?_
    rw [hn.rest]
    exact Plan.consume_alike hm.value c _
  | pair ha hb hd =>
    rw [Rule.peel]
    refine Plan.require_alike ha fun x x' hx => ?_
    rw [hx.rest]
    refine Plan.require_alike hd fun d d' hd => ?_
    rw [hd.rest]
    refine Plan.require_alike hb fun y y' hy => ?_
    rw [hy.rest]
    refine Plan.consume_alike (fun hk => ?_) c _
    rw [hx.value hk, hy.value hk]
  | mapped h f =>
    cases k with
    | wrappers => cases hk
    | labels =>
      rw [Rule.peel]
      refine Plan.require_alike h fun m m' hm => ?_
      rw [hm.value rfl, hm.span]
      split
      · exact Plan.succeed_alike ⟨rfl, hm.rest, fun _ => rfl⟩
      · exact .done (.error _)
  | discard h =>
    cases k with
    | wrappers => cases hk
    | labels =>
      rw [Rule.peel]
      exact Plan.require_alike h fun m m' hm => Plan.succeed_alike ⟨hm.span, hm.rest, fun _ => rfl⟩
  | optional h =>
    rw [Rule.peel]
    refine Plan.apply_alike h (fun _ _ => Plan.succeed_alike) fun _ _ _ => ?_
    exact Plan.consume_alike (fun _ => rfl) c c
  | label => cases k <;> cases hk
  | endOfInput =>
    simp only [Rule.peel, plan, Plan.endOfInput]
    split
    · exact Plan.consume_alike (fun _ => rfl) c c
    · exact Plan.fail_alike rfl
  | handle cell | recursive cell =>
    rw [Rule.peel]
    exact hcell cell
  | reference g name =>
    rw [Rule.peel, plan, plan, s.bound?_peel]
    exact Plan.bound_alike (fun q hq => hs q (Store.mem_rules_of_bound hq)) _ c
  | registered g h =>
    rw [Rule.peel]
    exact Plan.forward_alike h c

/-- A rule that is taken off applies the rule inside, and changes no more than what is left out of
account. -/
theorem plan_inside {q : Rule} (h : r.inside? k = some q) (s : Store) (c : Cursor) :
    ∃ next, r.plan s c = .apply q c next ∧
      ∀ o, ∃ step, next o = .done step ∧ (step.Spoiled k ∨ step.Alike k (.ok o)) := by
  have hsuccess (m : Match) {m' : Match} (h : m'.Alike k m) :
      Step.Alike k (.ok (.success m')) (.ok (.success m)) :=
    .ok (.success h)
  have hfailure {f f' : Failure} (h : f.offset = f'.offset) :
      Step.Alike k (.ok (.failure f')) (.ok (.failure f)) :=
    .ok (.failure h)
  cases r with
  | label p name =>
    obtain rfl : p = q := by cases k <;> exact Option.some.inj h
    refine ⟨_, rfl, fun o => ?_⟩
    cases o with
    | success m => exact ⟨_, rfl, .inr (hsuccess m (.refl k m))⟩
    | failure f =>
      dsimp only
      split
      · rename_i hoffset
        exact ⟨_, rfl, .inr (hfailure hoffset)⟩
      · exact ⟨_, rfl, .inr (hfailure rfl)⟩
  | mapped p t =>
    cases k with
    | labels => cases h
    | wrappers =>
      obtain rfl := Option.some.inj h
      refine ⟨_, rfl, fun o => ?_⟩
      cases o with
      | success m =>
        dsimp only
        split
        · exact ⟨_, rfl, .inr (hsuccess m ⟨rfl, rfl, fun hk => nomatch hk⟩)⟩
        · exact ⟨_, rfl, .inl ⟨rfl, _, rfl, rfl⟩⟩
      | failure f => exact ⟨_, rfl, .inr (hfailure rfl)⟩
  | discard p =>
    cases k with
    | labels => cases h
    | wrappers =>
      obtain rfl := Option.some.inj h
      refine ⟨_, rfl, fun o => ?_⟩
      cases o with
      | success m => exact ⟨_, rfl, .inr (hsuccess m ⟨rfl, rfl, fun hk => nomatch hk⟩)⟩
      | failure f => exact ⟨_, rfl, .inr (hfailure rfl)⟩
  | _ => cases k <;> cases h

end Rule

end Descent
