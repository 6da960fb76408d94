import Descent.Proofs.Parts
import Descent.Rule.Apply

namespace Descent

/-- What stands in place of the late-bound rules. -/
structure Links where
  handle : CellId → Rule
  recursive : CellId → Rule
  reference : RegistryId → String → Rule

namespace Rule

mutual

/-- The rule with its late-bound parts replaced. -/
def relink (k : Links) : Rule → Rule
  | .token p => .token p
  | .choice rs => .choice (relinkList k rs)
  | .sequence rs => .sequence (relinkList k rs)
  | .repeated r => .repeated (r.relink k)
  | .separated r d trailing => .separated (r.relink k) (d.relink k) trailing
  | .enclosed l r t => .enclosed (l.relink k) (r.relink k) (t.relink k)
  | .pair a b d => .pair (a.relink k) (b.relink k) (d.relink k)
  | .mapped r f => .mapped (r.relink k) f
  | .discard r => .discard (r.relink k)
  | .optional r => .optional (r.relink k)
  | .label r name => .label (r.relink k) name
  | .endOfInput => .endOfInput
  | .handle c => k.handle c
  | .recursive c => k.recursive c
  | .reference g name => k.reference g name
  | .registered g r => .registered g (r.relink k)
  | .primitive run => .primitive run
  | .adapt r change => .adapt (r.relink k) change

def relinkList (k : Links) : List Rule → List Rule
  | [] => []
  | r :: rs => r.relink k :: relinkList k rs

end

@[simp] theorem relinkList_eq (k : Links) (rs : List Rule) :
    relinkList k rs = rs.map (relink k) := by
  induction rs with
  | nil => rfl
  | cons r rs ih => rw [relinkList, ih, List.map_cons]

/-- Whether the rule is looked up when it is applied. -/
def isLate : Rule → Bool
  | .handle _ | .recursive _ | .reference .. => true
  | _ => false

/-- A rule without a late-bound part that is replaced stays as it is. -/
theorem relink_eq_self {k : Links} {r : Rule} (h : ∀ q ∈ r.parts, q.isLate → q.relink k = q) :
    r.relink k = r := by
  induction r using childInduction with
  | h r ih =>
    have hchild {q : Rule} (hq : q ∈ r.children) : q.relink k = q := by
      exact ih q hq fun p hp => h p (mem_parts_of_child hq hp)
    have hlist : r.children.map (relink k) = r.children :=
      (List.map_congr_left fun q hq => hchild hq).trans (List.map_id _)
    cases r with
    | handle | recursive | reference => exact h _ (self_mem_parts _) rfl
    | token | endOfInput | primitive => rfl
    | choice rs | sequence rs => rw [relink, relinkList_eq, show rs.map (relink k) = rs from hlist]
    | repeated | mapped | discard | optional | label | registered | adapt =>
      rw [relink, hchild (by simp [children])]
    | separated => rw [relink, hchild (by simp [children]), hchild (by simp [children])]
    | enclosed | pair =>
      rw [relink, hchild (by simp [children]), hchild (by simp [children]),
        hchild (by simp [children])]

end Rule

namespace Plan

/-- The plan with another rule in place of each that it applies. -/
def mapRules (f : Rule → Rule) : Plan → Plan
  | .done step => .done step
  | .observe run => .observe run
  | .apply r c next => .apply (f r) c fun o => (next o).mapRules f

variable (f : Rule → Rule)

theorem mapRules_apply {r : Rule} {c : Cursor} {next next' : Outcome → Plan}
    (hhit : ∀ m, (next (.success m)).mapRules f = next' (.success m))
    (hmiss : ∀ g, (next (.failure g)).mapRules f = next' (.failure g)) :
    (apply r c next).mapRules f = apply (f r) c next' := by
  rw [mapRules]
  congr
  funext o
  cases o with
  | success m => exact hhit m
  | failure g => exact hmiss g

theorem mapRules_require {r : Rule} {c : Cursor} {next next' : Match → Plan}
    (h : ∀ m, (next m).mapRules f = next' m) :
    (require r c next).mapRules f = require (f r) c next' :=
  mapRules_apply f h fun _ => rfl

theorem mapRules_choice (c : Cursor) (g : Failure) (rs : List Rule) :
    (choice c g rs).mapRules f = choice c g (rs.map f) := by
  induction rs generalizing g with
  | nil => rfl
  | cons r rs ih => exact mapRules_apply f (fun _ => rfl) fun g' => ih (g.adopt g')

theorem mapRules_sequence (start : Cursor) (values : List Value) (c : Cursor) (rs : List Rule) :
    (sequence start values c rs).mapRules f = sequence start values c (rs.map f) := by
  induction rs generalizing values c with
  | nil => rfl
  | cons r rs ih => exact mapRules_require f fun m => ih (m.value.collect values) m.rest

theorem mapRules_repeated (r : Rule) (start : Cursor) (turns : Nat) (values : List Value)
    (c : Cursor) :
    (repeated r start turns values c).mapRules f = repeated (f r) start turns values c := by
  induction turns generalizing values c with
  | zero => exact mapRules_apply f (fun _ => rfl) fun _ => rfl
  | succ turns ih =>
    refine mapRules_apply f (fun m => ?_) fun _ => rfl
    dsimp only
    split
    · rfl
    · exact ih _ _

theorem mapRules_round (r delimiter : Rule) (trailing : Bool) (start : Cursor)
    {next next' : List Value → Cursor → Plan}
    (h : ∀ values d, (next values d).mapRules f = next' values d)
    (values : List Value) (c : Cursor) :
    (round r delimiter trailing start next values c).mapRules f =
      round (f r) (f delimiter) trailing start next' values c := by
  refine mapRules_apply f (fun d => mapRules_apply f (fun m => ?_) fun _ => rfl) fun _ => rfl
  dsimp only
  split
  · rfl
  · exact h _ _

theorem mapRules_elements (r delimiter : Rule) (trailing : Bool) (start : Cursor) (turns : Nat)
    (values : List Value) (c : Cursor) :
    (elements r delimiter trailing start turns values c).mapRules f =
      elements (f r) (f delimiter) trailing start turns values c := by
  induction turns generalizing values c with
  | zero => exact mapRules_round f r delimiter trailing start (fun _ _ => rfl) values c
  | succ turns ih => exact mapRules_round f r delimiter trailing start ih values c

variable {f}

theorem run_mapRules {apply apply' : Rule → Cursor → Budget → Applied}
    (h : ∀ r c b, apply' (f r) c b = apply r c b) (p : Plan) (b : Budget) :
    (p.mapRules f).run apply' b = p.run apply b := by
  induction p generalizing b with
  | done | observe => rfl
  | apply r c next ih =>
    rw [mapRules, run, run, h]
    split
    · exact ih _ _
    · rfl
    · rfl

end Plan

namespace Rule

/-- A rule that is not looked up does with its parts replaced what it did before. -/
theorem plan_relink {r : Rule} (hr : r.isLate = false) (k : Links) (s s' : Store) (c : Cursor) :
    (r.relink k).plan s' c = (r.plan s c).mapRules (relink k) := by
  cases r with
  | handle | recursive | reference => cases hr
  | token p =>
    simp only [relink, plan, Plan.token]
    split <;> rfl
  | choice rs => simp only [relink, relinkList_eq, plan, Plan.mapRules_choice]
  | sequence rs => simp only [relink, relinkList_eq, plan, Plan.mapRules_sequence]
  | repeated r => simp only [relink, plan, Plan.mapRules_repeated]
  | separated r d trailing =>
    rw [relink, plan, plan, Plan.separated, Plan.separated,
      Plan.mapRules_require _ fun m => Plan.mapRules_elements _ r d trailing c _ _ _]
  | enclosed =>
    rw [relink, plan, plan, Plan.enclosed, Plan.enclosed]
    symm
    exact Plan.mapRules_require _ fun _ =>
      Plan.mapRules_require _ fun _ => Plan.mapRules_require _ fun _ => rfl
  | pair =>
    rw [relink, plan, plan, Plan.pair, Plan.pair]
    symm
    exact Plan.mapRules_require _ fun _ =>
      Plan.mapRules_require _ fun _ => Plan.mapRules_require _ fun _ => rfl
  | mapped r t =>
    rw [relink, plan, plan, Plan.mapped, Plan.mapped]
    symm
    refine Plan.mapRules_require _ fun m => ?_
    split <;> rfl
  | discard =>
    rw [relink, plan, plan, Plan.discard, Plan.discard]
    symm
    exact Plan.mapRules_require _ fun _ => rfl
  | optional =>
    rw [relink, plan, plan, Plan.optional, Plan.optional]
    symm
    exact Plan.mapRules_apply _ (fun _ => rfl) fun _ => rfl
  | label r name =>
    rw [relink, plan, plan, Plan.label, Plan.label]
    symm
    refine Plan.mapRules_apply _ (fun _ => rfl) fun g => ?_
    dsimp only
    split <;> rfl
  | endOfInput =>
    simp only [relink, plan, Plan.endOfInput]
    split <;> rfl
  | registered | primitive | adapt => rfl

end Rule

/-- What stands in place of a late-bound rule in `s'` applies what it is bound to in `s`, with its
parts replaced; if both stores are one it may as well apply that itself. -/
def Links.Connects (k : Links) (s s' : Store) : Prop :=
  ∀ r : Rule, r.isLate → ∀ c, (r.relink k).plan s' c = (r.plan s c).mapRules (Rule.relink k) ∨
    s' = s ∧ (r.relink k).plan s' c = r.plan s c

/-- A rule applies as it did, step by step, if its late-bound parts are replaced by ones that stand
for the same. -/
theorem Rule.apply_relink {k : Links} {s s' : Store} (h : k.Connects s s') (room : Nat)
    (r : Rule) (c : Cursor) (b : Budget) : (r.relink k).apply s' room c b = r.apply s room c b := by
  induction room generalizing r c b with
  | zero => rfl
  | succ room ih =>
    have hrun (b : Budget) : ((r.relink k).plan s' c).run (Rule.apply s' room) b =
        (r.plan s c).run (Rule.apply s room) b := by
      cases hr : r.isLate with
      | false =>
        rw [plan_relink hr k s s' c]
        exact Plan.run_mapRules ih _ b
      | true =>
        rcases h r hr c with hmap | ⟨rfl, hsame⟩
        · rw [hmap]
          exact Plan.run_mapRules ih _ b
        · rw [hsame]
    simp only [Rule.apply, hrun]

end Descent
