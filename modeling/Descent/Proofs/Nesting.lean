import Descent.Value.Basic

namespace Descent.Value

/-- The values right inside a value. -/
def children : Value → List Value
  | .list vs => vs
  | .map es => es.map Prod.snd
  | .unit | .text _ | .bool _ | .int _ | .float _ => []

mutual

/-- A value and all values inside it. -/
def parts : Value → List Value
  | .list vs => .list vs :: partsList vs
  | .map es => .map es :: partsEntries es
  | .unit => [.unit]
  | .text s => [.text s]
  | .bool b => [.bool b]
  | .int n => [.int n]
  | .float x => [.float x]

def partsList : List Value → List Value
  | [] => []
  | v :: vs => v.parts ++ partsList vs

def partsEntries : List (String × Value) → List Value
  | [] => []
  | (_, v) :: es => v.parts ++ partsEntries es

end

theorem sizeOf_lt_of_child {v u : Value} (h : u ∈ v.children) : sizeOf u < sizeOf v := by
  cases v with
  | list vs =>
    have hlt : sizeOf u < sizeOf vs := List.sizeOf_lt_of_mem h
    simp only [list.sizeOf_spec]
    omega
  | map es =>
    obtain ⟨⟨k, u⟩, he, rfl⟩ := List.mem_map.1 h
    have hlt := List.sizeOf_lt_of_mem he
    simp only [map.sizeOf_spec, Prod.mk.sizeOf_spec] at hlt ⊢
    omega
  | unit | text | bool | int | float => cases h

/-- What holds of a value if it holds of all values right inside it holds of all values. -/
theorem childInduction {P : Value → Prop} (h : ∀ v, (∀ u ∈ v.children, P u) → P v) (v : Value) :
    P v := by
  induction hn : sizeOf v using Nat.strongRecOn generalizing v with
  | ind n ih => exact h v fun u hu => ih (sizeOf u) (hn ▸ sizeOf_lt_of_child hu) u rfl

theorem mem_partsList {u : Value} {vs : List Value} : u ∈ partsList vs ↔ ∃ v ∈ vs, u ∈ v.parts := by
  induction vs with
  | nil => simp [partsList]
  | cons v vs ih => simp [partsList, ih]

theorem partsEntries_eq (es : List (String × Value)) :
    partsEntries es = partsList (es.map Prod.snd) := by
  induction es with
  | nil => rfl
  | cons e es ih => rw [partsEntries, ih, List.map_cons, partsList]

theorem parts_eq (v : Value) : v.parts = v :: partsList v.children := by
  cases v with
  | list => rfl
  | map es => rw [parts, partsEntries_eq, children]
  | unit | text | bool | int | float => rfl

theorem self_mem_parts (v : Value) : v ∈ v.parts := by
  rw [parts_eq]
  exact List.mem_cons_self

theorem mem_parts {u v : Value} : u ∈ v.parts ↔ u = v ∨ ∃ w ∈ v.children, u ∈ w.parts := by
  rw [parts_eq, List.mem_cons, mem_partsList]

/-- The value and all values inside it are as `p` says. -/
def Everywhere (p : Value → Prop) (v : Value) : Prop := ∀ u ∈ v.parts, p u

variable {p : Value → Prop} {u v : Value}

instance [DecidablePred p] (v : Value) : Decidable (v.Everywhere p) :=
  inferInstanceAs (Decidable (∀ u ∈ v.parts, p u))

theorem Everywhere.self (h : v.Everywhere p) : p v := h v v.self_mem_parts

theorem Everywhere.child (h : v.Everywhere p) (hu : u ∈ v.children) : u.Everywhere p :=
  fun w hw => h w (mem_parts.2 (.inr ⟨u, hu, hw⟩))

theorem everywhere_iff : v.Everywhere p ↔ p v ∧ ∀ u ∈ v.children, u.Everywhere p := by
  refine ⟨fun h => ⟨h.self, fun _ hu => h.child hu⟩, ?_⟩
  rintro ⟨hself, hchildren⟩ w hw
  rcases mem_parts.1 hw with rfl | ⟨u, hu, hw⟩
  · exact hself
  · exact hchildren u hu w hw

/-- The entries of a map have pairwise different keys. Other values have none. -/
def HasDistinctKeys : Value → Prop
  | .map es => (Entries.keys es).Nodup
  | _ => True

instance : DecidablePred HasDistinctKeys := fun v =>
  match v with
  | .map es => inferInstanceAs (Decidable (Entries.keys es).Nodup)
  | .unit | .text _ | .list _ | .bool _ | .int _ | .float _ => inferInstanceAs (Decidable True)

end Descent.Value
