import Descent.Grammar.Store
import Descent.Proofs.Contract

namespace Descent

namespace Rule

/-- No part of the rule is written by hand. -/
inductive Composed : Rule → Prop
  | token (p : Pattern) : Composed (.token p)
  | choice {rs : List Rule} (h : ∀ r ∈ rs, Composed r) : Composed (.choice rs)
  | sequence {rs : List Rule} (h : ∀ r ∈ rs, Composed r) : Composed (.sequence rs)
  | repeated {r : Rule} (h : Composed r) : Composed (.repeated r)
  | separated {r d : Rule} (hr : Composed r) (hd : Composed d) (trailing : Bool) :
    Composed (.separated r d trailing)
  | enclosed {l r t : Rule} (hl : Composed l) (hr : Composed r) (ht : Composed t) :
    Composed (.enclosed l r t)
  | pair {a b d : Rule} (ha : Composed a) (hb : Composed b) (hd : Composed d) :
    Composed (.pair a b d)
  | mapped {r : Rule} (h : Composed r) (f : Value → Except String Value) : Composed (.mapped r f)
  | discard {r : Rule} (h : Composed r) : Composed (.discard r)
  | optional {r : Rule} (h : Composed r) : Composed (.optional r)
  | label {r : Rule} (h : Composed r) (name : String) : Composed (.label r name)
  | endOfInput : Composed .endOfInput
  | handle (cell : CellId) : Composed (.handle cell)
  | recursive (cell : CellId) : Composed (.recursive cell)
  | reference (g : RegistryId) (name : String) : Composed (.reference g name)
  | registered (g : RegistryId) {r : Rule} (h : Composed r) : Composed (.registered g r)

/-- The rules that a rule applies itself; a late-bound rule applies what it is bound to. -/
def callees (s : Store) : Rule → List Rule
  | .choice rs | .sequence rs => rs
  | .repeated r | .mapped r _ | .discard r | .optional r | .label r _ | .registered _ r
  | .adapt r _ => [r]
  | .separated r d _ => [r, d]
  | .enclosed l r t => [l, r, t]
  | .pair a b d => [a, b, d]
  | .handle c | .recursive c => (s.cell? c).toList
  | .reference g name => (s.bound? g name).toList
  | .token _ | .endOfInput | .primitive _ => []

end Rule

namespace Store

/-- All rules that can be looked up are composed. -/
def Composed (s : Store) : Prop := ∀ r ∈ s.rules, r.Composed

theorem mem_rules_of_cell {s : Store} {c : CellId} {r : Rule} (h : s.cell? c = some r) :
    r ∈ s.rules := by
  unfold cell? at h
  refine List.mem_append_left _ (List.mem_filterMap.2 ⟨some r, ?_, rfl⟩)
  exact List.mem_of_getElem? (Option.join_eq_some_iff.1 h)

theorem mem_rules_of_bound {s : Store} {g : RegistryId} {name : String} {r : Rule}
    (h : s.bound? g name = some r) : r ∈ s.rules := by
  have hm := Keyed.get?_eq_some_iff.1 h
  unfold registry at hm
  cases hg : s.registries[g]? with
  | none =>
    rw [hg] at hm
    cases hm
  | some d =>
    rw [hg, Option.getD_some] at hm
    exact List.mem_append_right _ (List.mem_flatMap.2
      ⟨d, List.mem_of_getElem? hg, List.mem_map_of_mem hm⟩)

theorem composed_empty : empty.Composed := fun _ h => absurd h List.not_mem_nil

end Store

theorem Rule.Composed.callee {s : Store} (hs : s.Composed) {r : Rule} (h : r.Composed) {r' : Rule}
    (hr : r' ∈ r.callees s) : r'.Composed := by
  cases h with
  | token | endOfInput => simp [Rule.callees] at hr
  | choice h | sequence h => exact h r' hr
  | repeated h | mapped h | discard h | optional h | label h | registered _ h =>
    obtain rfl := List.mem_singleton.1 hr
    exact h
  | separated hr' hd | enclosed hl hr' ht | pair ha hb hd =>
    simp only [Rule.callees, List.mem_cons, List.not_mem_nil, or_false] at hr
    rcases hr with rfl | rfl | rfl <;> assumption
  | handle | recursive => exact hs _ (Store.mem_rules_of_cell (Option.mem_toList.1 hr))
  | reference => exact hs _ (Store.mem_rules_of_bound (Option.mem_toList.1 hr))

/-- Whether the rule passes on what fails it, and tells nothing of its own. -/
def Rule.passesOn : Rule → Bool
  | .token _ | .choice _ | .label .. | .endOfInput => false
  | _ => true

/-- What holds of all failures and is kept by all applications holds of the plan of a rule that
passes failures on. -/
theorem Rule.Composed.plan_passes {s : Store} {r : Rule} (h : r.Composed)
    (hpasses : r.passesOn = true) {k : Contract} {goal : List Event → Step → Prop}
    {I : List Event → Prop}
    (hcall : ∀ q ∈ r.callees s, ∀ d fs, I fs → Plan.Call k goal q d fs (fun _ gs => I gs)
      fun f gs => I gs ∧ goal gs (.ok (.failure f)))
    (hhit : ∀ m fs, I fs → goal fs (.ok (.success m)))
    (hfault : ∀ f fs, I fs → goal fs (.error f)) (c : Cursor)
    {es : List Event} (hes : I es) : (r.plan s c).Meets k goal es := by
  have hpass {q : Rule} (hq : q ∈ r.callees s) (d : Cursor) {fs : List Event} (hfs : I fs) :
      Plan.Call k goal q d fs (fun _ gs => I gs) fun f gs => goal gs (.ok (.failure f)) :=
    (hcall q hq d fs hfs).mono (fun _ _ hgs => hgs) fun _ _ hgs => hgs.2
  have hrecover {q : Rule} (hq : q ∈ r.callees s) (d : Cursor) {fs : List Event} (hfs : I fs) :
      Plan.Call k goal q d fs (fun _ gs => I gs) fun _ gs => I gs :=
    (hcall q hq d fs hfs).mono (fun _ _ hgs => hgs) fun _ _ hgs => hgs.1
  have hforward {q : Rule} (hq : q ∈ r.callees s) : (Plan.forward q c).Meets k goal es :=
    ((hpass hq c hes).mono hhit fun _ _ hf => hf).forward
  have hbound {found : Option Rule} (hfound : ∀ q ∈ found, q ∈ r.callees s) (name : String) :
      (Plan.bound found name c).Meets k goal es := by
    cases found with
    | none => exact hfault _ es hes
    | some q => exact hforward (hfound q rfl)
  cases h with
  | token | choice | label | endOfInput => cases hpasses
  | sequence =>
    exact Plan.sequence_meets (I := fun _ _ es => I es) (fun q hq _ d fs hfs => hpass hq d hfs)
      (fun _ _ _ hfs => hhit _ _ hfs) hes
  | repeated =>
    refine Plan.repeated_meets (I := fun _ _ es => I es) (fun _ d fs hfs => ?_) _ hes
    exact (hrecover (by simp [callees]) d hfs).mono (fun _ _ hgs => ⟨hhit _ _ hgs, fun _ => hgs⟩)
      fun _ _ hgs => hhit _ _ hgs
  | separated =>
    refine (hpass (by simp [callees]) c hes).require fun m fs hfs => ?_
    refine Plan.elements_meets (I := fun _ _ es => I es) (fun _ d fs hfs => ?_) _ hfs
    refine (hrecover (by simp [callees]) d hfs).mono (fun m gs hgs => ?_)
      fun _ _ hgs => hhit _ _ hgs
    exact (hrecover (by simp [callees]) m.rest hgs).mono (fun _ _ h => ⟨hhit _ _ h, fun _ => h⟩)
      fun _ _ h => hhit _ _ h
  | enclosed =>
    refine (hpass (by simp [callees]) c hes).require fun l fs hfs => ?_
    refine (hpass (by simp [callees]) l.rest hfs).require fun m gs hgs => ?_
    exact (hpass (by simp [callees]) m.rest hgs).require fun n fs hfs => hhit _ _ hfs
  | pair =>
    refine (hpass (by simp [callees]) c hes).require fun a fs hfs => ?_
    refine (hpass (by simp [callees]) a.rest hfs).require fun d gs hgs => ?_
    exact (hpass (by simp [callees]) d.rest hgs).require fun b fs hfs => hhit _ _ hfs
  | mapped =>
    refine (hpass (by simp [callees]) c hes).require fun m fs hfs => ?_
    split
    · exact hhit _ _ hfs
    · exact hfault _ _ hfs
  | discard => exact (hpass (by simp [callees]) c hes).require fun m fs hfs => hhit _ _ hfs
  | optional =>
    exact (hrecover (by simp [callees]) c hes).apply (fun m fs hfs => hhit _ _ hfs)
      fun _ _ hfs => hhit _ _ hfs
  | handle | recursive | reference => exact hbound (fun q hq => Option.mem_toList.2 hq) _
  | registered => exact hforward (by simp [callees])

/-- Among the rules of a list; nothing is told of their steps. -/
abbrev Plan.among (rules : List Rule) : Contract := .asking fun r _ => r ∈ rules

theorem Plan.call_among {rules : List Rule} {r : Rule} (hr : r ∈ rules) (d : Cursor)
    (es : List Event) :
    Call (among rules) (fun _ _ => True) r d es (fun _ _ => True) fun _ _ => True :=
  ⟨hr, fun _ _ _ => trivial, fun _ _ _ => trivial, fun _ _ _ => trivial⟩

/-- A composed rule applies none but its callees. -/
theorem Rule.Composed.plan_among {s : Store} {r : Rule} (h : r.Composed) (c : Cursor)
    (es : List Event) :
    (r.plan s c).Meets (Plan.among (r.callees s)) (fun _ _ => True) es := by
  by_cases hpasses : r.passesOn = true
  · exact h.plan_passes hpasses (I := fun _ => True)
      (fun q hq d fs _ => (Plan.call_among hq d fs).mono (fun _ _ h => h) fun _ _ h => ⟨h, h⟩)
      (fun _ _ h => h) (fun _ _ h => h) c trivial
  · cases h with
    | token p =>
      simp only [Rule.plan, Plan.token]
      split <;> trivial
    | choice =>
      exact Plan.choice_meets (I := fun _ _ => True) (fun r hr _ fs _ => Plan.call_among hr c fs)
        (fun _ _ _ => trivial) trivial
    | label =>
      refine (Plan.call_among (List.mem_singleton.2 rfl) c es).apply (fun _ _ _ => trivial)
        fun f fs _ => ?_
      dsimp only
      split <;> trivial
    | endOfInput =>
      simp only [Rule.plan, Plan.endOfInput]
      split <;> trivial
    | _ => exact absurd rfl hpasses

/-- For composed rules a contract need not ask that rules are composed. -/
theorem Rule.Composed.trace_keeps {s : Store} (hs : s.Composed) {k : Contract}
    (h : ∀ r c, r.Composed → k.pre r c → (r.plan s c).Meets k
      (fun es step => k.post r c (.opened r c :: (es ++ [.closed r c step])) step) [])
    (room : Nat) {r : Rule} {c : Cursor} (hr : r.Composed) (hc : k.pre r c) :
    (r.trace s room c).Keeps ((Contract.asking fun r _ => r.Composed).and k) (k.post r c) := by
  have hk := Rule.trace_keeps (k := (Contract.asking fun r _ => r.Composed).and k) (s := s) ?_ room
    (r := r) (c := c) ⟨hr, hc⟩
  · exact ⟨hk.opened, fun r c step hm => hk.closed r c step hm,
      fun step hstep => (hk.step step hstep).2⟩
  · intro r c hrc
    refine ((hrc.1.plan_among c []).and (h r c hrc.1 hrc.2)).mono ?_ ?_ ?_
    · exact fun r' c' hr' => ⟨hrc.1.callee hs hr'.1, hr'.2⟩
    · exact fun _ _ _ _ hpost => ⟨trivial, hpost.2⟩
    · exact fun _ _ hgoal => ⟨trivial, hgoal.2⟩

end Descent
