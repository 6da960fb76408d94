import Mathlib.Logic.Relation
import Descent.Proofs.Composed

namespace Descent.Rule

/-- The rules right inside a rule. -/
def children : Rule → List Rule
  | .choice rs | .sequence rs => rs
  | .repeated r | .mapped r _ | .discard r | .optional r | .label r _ | .registered _ r
  | .adapt r _ => [r]
  | .separated r d _ => [r, d]
  | .enclosed l r t => [l, r, t]
  | .pair a b d => [a, b, d]
  | .handle _ | .recursive _ | .reference .. | .token _ | .endOfInput | .primitive _ => []

mutual

/-- A rule and all rules inside it. -/
def parts : Rule → List Rule
  | .choice rs => .choice rs :: partsList rs
  | .sequence rs => .sequence rs :: partsList rs
  | .repeated r => .repeated r :: r.parts
  | .separated r d trailing => .separated r d trailing :: (r.parts ++ d.parts)
  | .enclosed l r t => .enclosed l r t :: (l.parts ++ r.parts ++ t.parts)
  | .pair a b d => .pair a b d :: (a.parts ++ b.parts ++ d.parts)
  | .mapped r f => .mapped r f :: r.parts
  | .discard r => .discard r :: r.parts
  | .optional r => .optional r :: r.parts
  | .label r name => .label r name :: r.parts
  | .registered g r => .registered g r :: r.parts
  | .adapt r change => .adapt r change :: r.parts
  | .token p => [.token p]
  | .endOfInput => [.endOfInput]
  | .handle c => [.handle c]
  | .recursive c => [.recursive c]
  | .reference g name => [.reference g name]
  | .primitive run => [.primitive run]

def partsList : List Rule → List Rule
  | [] => []
  | r :: rs => r.parts ++ partsList rs

end

theorem parts_eq (r : Rule) : r.parts = r :: partsList r.children := by
  cases r <;> simp [parts, partsList, children]

theorem size_eq (r : Rule) : r.size = sizeList r.children+1 := by
  cases r <;> simp only [size, sizeList, children] <;> omega

theorem self_mem_parts (r : Rule) : r ∈ r.parts := by
  rw [parts_eq]
  exact List.mem_cons_self

theorem mem_partsList {r : Rule} {rs : List Rule} : r ∈ partsList rs ↔ ∃ q ∈ rs, r ∈ q.parts := by
  induction rs with
  | nil => simp [partsList]
  | cons q rs ih => simp [partsList, ih]

theorem mem_parts_of_child {r q p : Rule} (hq : q ∈ r.children) (hp : p ∈ q.parts) :
    p ∈ r.parts := by
  rw [parts_eq]
  exact List.mem_cons_of_mem _ (mem_partsList.2 ⟨q, hq, hp⟩)

theorem size_le_sizeList {q : Rule} {rs : List Rule} (h : q ∈ rs) : q.size ≤ sizeList rs := by
  induction rs with
  | nil => cases h
  | cons p rs ih =>
    rw [sizeList]
    rcases List.mem_cons.1 h with rfl | h
    · omega
    · have := ih h
      omega

theorem length_le_sizeList (rs : List Rule) : rs.length ≤ sizeList rs := by
  induction rs with
  | nil => exact Nat.le_refl _
  | cons q rs ih =>
    rw [List.length_cons, sizeList, size_eq q]
    omega

theorem size_lt_of_child {r q : Rule} (h : q ∈ r.children) : q.size < r.size := by
  have := size_le_sizeList h
  rw [size_eq r]
  omega

/-- What holds of a rule if it holds of all rules right inside it holds of all rules. -/
theorem childInduction {P : Rule → Prop} (h : ∀ r, (∀ q ∈ r.children, P q) → P r) (r : Rule) :
    P r := by
  induction hn : r.size using Nat.strongRecOn generalizing r with
  | ind n ih => exact h r fun q hq => ih q.size (hn ▸ size_lt_of_child hq) q rfl

theorem size_le_of_mem_parts {r q : Rule} (h : q ∈ r.parts) : q.size ≤ r.size := by
  induction r using childInduction with
  | h r ih =>
    rw [parts_eq] at h
    rcases List.mem_cons.1 h with rfl | h
    · exact Nat.le_refl _
    · obtain ⟨p, hp, hq⟩ := mem_partsList.1 h
      exact Nat.le_trans (ih p hp hq) (Nat.le_of_lt (size_lt_of_child hp))

theorem length_parts (r : Rule) : r.parts.length = r.size := by
  induction r using childInduction with
  | h r ih =>
    have hl : ∀ rs : List Rule, (∀ q ∈ rs, q.parts.length = q.size) →
        (partsList rs).length = sizeList rs := by
      intro rs hrs
      induction rs with
      | nil => rfl
      | cons q rs ihrs =>
        have hq := hrs q List.mem_cons_self
        have hqs := ihrs fun p hp => hrs p (List.mem_cons_of_mem _ hp)
        simp [partsList, sizeList, hq, hqs]
    rw [parts_eq, size_eq, List.length_cons, hl _ ih]

theorem length_partsList (rs : List Rule) : (partsList rs).length = sizeList rs := by
  have h := length_parts (.choice rs)
  rw [parts_eq, size_eq, List.length_cons] at h
  exact Nat.succ.inj h

/-- The parts of a part are parts of the whole. -/
theorem parts_subset {r q : Rule} (h : q ∈ r.parts) : ∀ p ∈ q.parts, p ∈ r.parts := by
  induction r using childInduction with
  | h r ih =>
    rw [parts_eq] at h
    rcases List.mem_cons.1 h with rfl | h
    · exact fun p hp => hp
    · obtain ⟨q', hq', hq⟩ := mem_partsList.1 h
      exact fun p hp => mem_parts_of_child hq' (ih q' hq' hq p hp)

theorem mem_callees {s : Store} {r q : Rule} (h : q ∈ r.callees s) :
    q ∈ r.children ∨ q ∈ s.rules := by
  cases r
  case handle | recursive => exact .inr (Store.mem_rules_of_cell (Option.mem_toList.1 h))
  case reference => exact .inr (Store.mem_rules_of_bound (Option.mem_toList.1 h))
  all_goals exact .inl h

theorem Composed.part {r q : Rule} (h : r.Composed) (hq : q ∈ r.parts) : q.Composed := by
  induction r using childInduction with
  | h r ih =>
    rw [parts_eq] at hq
    rcases List.mem_cons.1 hq with rfl | hq
    · exact h
    · obtain ⟨p, hp, hq⟩ := mem_partsList.1 hq
      refine ih p hp (h.callee Store.composed_empty ?_) hq
      cases r <;> exact hp

/-- Whether the rule itself is written by hand. -/
def isPrimitive : Rule → Bool
  | .primitive _ | .adapt .. => true
  | _ => false

theorem composed_iff {r : Rule} : r.Composed ↔ ∀ q ∈ r.parts, q.isPrimitive = false := by
  constructor
  · intro h q hq
    cases h.part hq <;> rfl
  · intro h
    induction r using childInduction with
    | h r ih =>
      have hc : ∀ q ∈ r.children, q.Composed := by
        intro q hq
        exact ih q hq fun p hp => h p (mem_parts_of_child hq hp)
      have hr := h r r.self_mem_parts
      cases r with
      | token p => exact .token p
      | choice => exact .choice hc
      | sequence => exact .sequence hc
      | repeated => exact .repeated (hc _ (by simp [children]))
      | separated => exact .separated (hc _ (by simp [children])) (hc _ (by simp [children])) _
      | enclosed =>
        exact .enclosed (hc _ (by simp [children])) (hc _ (by simp [children]))
          (hc _ (by simp [children]))
      | pair =>
        exact .pair (hc _ (by simp [children])) (hc _ (by simp [children]))
          (hc _ (by simp [children]))
      | mapped => exact .mapped (hc _ (by simp [children])) _
      | discard => exact .discard (hc _ (by simp [children]))
      | optional => exact .optional (hc _ (by simp [children]))
      | label => exact .label (hc _ (by simp [children])) _
      | endOfInput => exact .endOfInput
      | handle c => exact .handle c
      | recursive c => exact .recursive c
      | reference g name => exact .reference g name
      | registered => exact .registered _ (hc _ (by simp [children]))
      | primitive | adapt => cases hr

instance (r : Rule) : Decidable r.Composed := decidable_of_iff _ composed_iff.symm

instance (s : Store) : Decidable s.Composed :=
  inferInstanceAs (Decidable (∀ r ∈ s.rules, r.Composed))

/-- Everything that a rule may lead to. -/
def reach (s : Store) (r : Rule) : List Rule := r.parts ++ partsList s.rules

theorem length_reach (s : Store) (r : Rule) : (r.reach s).length = s.size+r.size := by
  rw [reach, List.length_append, length_parts, length_partsList, Nat.add_comm]
  rfl

theorem size_le_of_mem_reach {s : Store} {r q : Rule} (h : q ∈ r.reach s) :
    q.size ≤ s.size+r.size := by
  rcases List.mem_append.1 h with h | h
  · exact Nat.le_trans (size_le_of_mem_parts h) (Nat.le_add_left _ _)
  · obtain ⟨p, hp, hq⟩ := mem_partsList.1 h
    have hstore : p.size ≤ s.size := size_le_sizeList hp
    have := size_le_of_mem_parts hq
    omega

theorem self_mem_reach (s : Store) (r : Rule) : r ∈ r.reach s :=
  List.mem_append_left _ r.self_mem_parts

theorem Composed.reach {s : Store} (hs : s.Composed) {r q : Rule} (h : r.Composed)
    (hq : q ∈ r.reach s) : q.Composed := by
  rcases List.mem_append.1 hq with hq | hq
  · exact h.part hq
  · obtain ⟨p, hp, hq⟩ := mem_partsList.1 hq
    exact (hs p hp).part hq

theorem callee_mem_reach {s : Store} {r q p : Rule} (hq : q ∈ r.reach s) (hp : p ∈ q.callees s) :
    p ∈ r.reach s := by
  rcases mem_callees hp with hp | hp
  · have hpq : p ∈ q.parts := mem_parts_of_child hp p.self_mem_parts
    rcases List.mem_append.1 hq with hq | hq
    · exact List.mem_append_left _ (parts_subset hq p hpq)
    · obtain ⟨q', hq', hq⟩ := mem_partsList.1 hq
      exact List.mem_append_right _ (mem_partsList.2 ⟨q', hq', parts_subset hq p hpq⟩)
  · exact List.mem_append_right _ (mem_partsList.2 ⟨p, hp, p.self_mem_parts⟩)

/-- `r` leads to `q`, through the rules inside it and those that late-bound rules stand for. -/
def Contains (s : Store) (r q : Rule) : Prop :=
  Relation.ReflTransGen (fun q p => p ∈ q.callees s) r q

theorem child_mem_callees {s : Store} {r q : Rule} (h : q ∈ r.children) : q ∈ r.callees s := by
  cases r
  case handle | recursive | reference | token | endOfInput | primitive => cases h
  all_goals exact h

/-- A rule leads to all its parts. -/
theorem contains_of_mem_parts (s : Store) {r q : Rule} (h : q ∈ r.parts) : r.Contains s q := by
  induction r using childInduction with
  | h r ih =>
    rw [parts_eq] at h
    rcases List.mem_cons.1 h with rfl | h
    · exact Relation.ReflTransGen.refl
    · obtain ⟨p, hp, hq⟩ := mem_partsList.1 h
      exact (ih p hp hq).head (child_mem_callees hp)

theorem Contains.mem_reach {s : Store} {r q : Rule} (h : r.Contains s q) : q ∈ r.reach s := by
  induction h with
  | refl => exact self_mem_reach s r
  | tail _ hp ih => exact callee_mem_reach ih hp

theorem Composed.trace_contains {s : Store} (hs : s.Composed) {r : Rule}
    (hr : r.Composed) {room : Nat} {c d : Cursor} {q : Rule}
    (h : .opened q d ∈ (r.trace s room c).events) : r.Contains s q := by
  have hk := Rule.Composed.trace_keeps hs (k := .asking fun q _ => r.Contains s q)
    (fun q c hq hrq => ?_) room (c := c) hr Relation.ReflTransGen.refl
  · exact (hk.opened q d h).2
  · exact (hq.plan_among c []).mono (fun _ _ hp => hrq.tail hp) (fun _ _ _ _ _ => trivial)
      fun _ _ _ => trivial

end Descent.Rule
