import Descent.Proofs.Recipes

namespace Descent

namespace Rule

/-- The cell or registry that the rule itself goes by is one of the store. -/
def isLinked (s : Store) : Rule → Bool
  | .handle c | .recursive c => c < s.cells.length
  | .reference g _ | .registered g _ => g < s.registries.length
  | _ => true

/-- No part of the rule goes by a cell or a registry that the store has not got. -/
def Anchored (s : Store) (r : Rule) : Prop := ∀ q ∈ r.parts, q.isLinked s

instance (s : Store) (r : Rule) : Decidable (r.Anchored s) :=
  inferInstanceAs (Decidable (∀ q ∈ r.parts, q.isLinked s))

end Rule

namespace Store

def Anchored (s : Store) : Prop := ∀ r ∈ s.rules, r.Anchored s

instance (s : Store) : Decidable s.Anchored :=
  inferInstanceAs (Decidable (∀ r ∈ s.rules, r.Anchored s))

variable {s t : Store}

theorem isLinked_mono (hc : s.cells.length ≤ t.cells.length)
    (hg : s.registries.length ≤ t.registries.length) {q : Rule} (h : q.isLinked s) :
    q.isLinked t := by
  cases q with
  | handle | recursive => exact decide_eq_true (Nat.lt_of_lt_of_le (of_decide_eq_true h) hc)
  | reference | registered => exact decide_eq_true (Nat.lt_of_lt_of_le (of_decide_eq_true h) hg)
  | _ => rfl

theorem anchored_mono (hc : s.cells.length ≤ t.cells.length)
    (hg : s.registries.length ≤ t.registries.length) {r : Rule} (h : r.Anchored s) : r.Anchored t :=
      fun q hq => isLinked_mono hc hg (h q hq)

end Store

namespace Rule.Anchored

variable {s : Store} {r : Rule} (h : r.Anchored s)
include h

theorem newRegistry : r.Anchored s.newRegistry.2 :=
  Store.anchored_mono (s := s) (t := s.newRegistry.2) (Nat.le_refl _)
    (by simp [Store.newRegistry]) h

theorem extend (cells : List Rule) : r.Anchored (s.extend cells) :=
  Store.anchored_mono (s := s) (t := s.extend cells) (by simp) (Nat.le_refl _) h

theorem define (g : RegistryId) (name : String) (q : Rule) : r.Anchored (s.define g name q) :=
  Store.anchored_mono (s := s) (t := s.define g name q) (Nat.le_refl _) (by simp [Store.define]) h

end Rule.Anchored

theorem Recipe.Built.anchored {s : Store} {given : Supply} {rs cells : List Rule}
    (h : Built given s.cells.length rs cells) (hgiven : ∀ n, (given n).Anchored s) :
    ∀ r ∈ rs ++ cells, r.Anchored (s.extend cells) := by
  have hle : s.cells.length ≤ (s.extend cells).cells.length := by simp
  refine h.parts (fun q hq => ?_) (fun c _ hc => ?_) (fun n q hq => ?_)
    (Nat.zero_le _) (Nat.le_refl _)
  · cases q with
    | handle | recursive | reference | registered => cases hq
    | _ => rfl
  · have hlt : c < (s.extend cells).cells.length := by rwa [Store.length_cells_extend]
    exact ⟨decide_eq_true hlt, decide_eq_true hlt⟩
  · exact Store.isLinked_mono hle (Nat.le_refl _) (hgiven n q hq)

end Descent
