import Mathlib.Data.List.Induction
import Descent.Value.Json
import Descent.Proofs.Nesting

namespace Descent

namespace Entries

variable {α : Type} {key : String} {es : Entries α}

theorem get?_append (key : String) (es fs : Entries α) :
    get? key (es ++ fs) = (get? key es).or (get? key fs) := by
  rw [get?, List.find?_append, Option.map_or]
  rfl

theorem isSome_get?_reverse : (get? key es.reverse).isSome ↔ (get? key es).isSome := by
  simp [isSome_get?, keys]

/-- A key that is not repeated is found first and last at once. -/
theorem get?_reverse (h : (keys es).count key ≤ 1) : get? key es.reverse = get? key es := by
  induction es with
  | nil => rfl
  | cons e es ih =>
    rw [keys, List.map_cons, ← keys, List.count_cons] at h
    rw [List.reverse_cons, get?_append, ih (by omega), get?_cons, get?_cons]
    by_cases hk : e.1 = key
    · have hnone : get? key es = none := by
        rw [← Option.not_isSome_iff_eq_none, isSome_get?, ← List.count_eq_zero]
        simp only [hk, beq_self_eq_true, if_true] at h
        omega
      simp [hk, hnone]
    · simp [hk, get?]

end Entries

namespace Keyed

variable {α : Type}

theorem ofList_concat (es : Entries α) (e : String × α) :
    ofList (es ++ [e]) = (ofList es).insert e.1 e.2 := List.foldl_append

/-- Of entries put in one after the other the last with a key is found. -/
theorem get?_ofList (key : String) (es : Entries α) :
    (ofList es).get? key = Entries.get? key es.reverse := by
  induction es using List.reverseRecOn with
  | nil => rfl
  | append_singleton es e ih =>
    rw [ofList_concat, get?_insert, ih, List.reverse_concat, Entries.get?_cons]

end Keyed

/-- A step into a value: to an item of a list, or to the value of an entry of a map. -/
inductive Place where
  | item (i : Nat)
  | entry (key : String)

namespace Json

/-- Goes into a document from place to place. -/
def follow? : List Place → Json → Option Json
  | [], j => some j
  | .item i :: path, .array js => js[i]?.bind (follow? path)
  | .item _ :: _, _ => none
  | .entry key :: path, j => (j.get? key).bind (follow? path)

end Json

namespace Value

/-- The value of the last entry with the key. -/
def latest? (key : String) : Value → Option Value
  | .map es => Entries.get? key es.reverse
  | _ => none

/-- How many entries have the key. -/
def occurrences (key : String) : Value → Nat
  | .map es => (Entries.keys es).count key
  | _ => 0

/-- Goes into a value from place to place; `look` finds the entries of maps. -/
def follow? (look : String → Value → Option Value) : List Place → Value → Option Value
  | [], v => some v
  | .item i :: path, .list vs => vs[i]?.bind (follow? look path)
  | .item _ :: _, _ => none
  | .entry key :: path, v => (look key v).bind (follow? look path)

theorem toJsonList_eq (vs : List Value) : toJsonList vs = vs.map toJson := by
  induction vs with
  | nil => rfl
  | cons v vs ih => rw [toJsonList, ih, List.map_cons]

theorem toJsonEntries_eq (es : List (String × Value)) :
    toJsonEntries es = es.map fun e => (e.1, e.2.toJson) := by
  induction es with
  | nil => rfl
  | cons e es ih => rw [toJsonEntries, ih, List.map_cons]

theorem get?_toJson_float (key : String) (x : Float) : (floatToJson x).get? key = none := by
  unfold floatToJson
  split <;> rfl

/-- A member of the document is made of the last entry with its key. -/
theorem get?_toJson (key : String) (v : Value) :
    v.toJson.get? key = (v.latest? key).map toJson := by
  cases v with
  | map es =>
    have hmembers := Keyed.get?_ofList key (es.map fun e => (e.1, e.2.toJson))
    rw [← List.map_reverse, Entries.get?_map] at hmembers
    rw [toJson, toJsonEntries_eq]
    exact hmembers
  | float x => exact get?_toJson_float key x
  | unit | text | bool | int | list => rfl

theorem isSome_latest? (key : String) (v : Value) :
    (v.latest? key).isSome ↔ (v.get? key).isSome := by
  cases v with
  | map es => exact Entries.isSome_get?_reverse
  | unit | text | bool | int | float | list => rfl

theorem latest?_eq_get? {key : String} {v : Value} (h : v.occurrences key ≤ 1) :
    v.latest? key = v.get? key := by
  cases v with
  | map es => exact Entries.get?_reverse h
  | unit | text | bool | int | float | list => rfl

theorem HasDistinctKeys.occurrences_le {v : Value} (h : v.HasDistinctKeys) (key : String) :
    v.occurrences key ≤ 1 := by
  cases v with
  | map es => exact List.nodup_iff_count.1 h key
  | unit | text | bool | int | float | list => exact Nat.zero_le 1

/-- What stands at a place of the document is made of what stands there in the value, where maps
find last entries. -/
theorem follow?_toJson (path : List Place) (v : Value) :
    v.toJson.follow? path = (v.follow? latest? path).map toJson := by
  induction path generalizing v with
  | nil => rfl
  | cons place path ih =>
    cases place with
    | entry key =>
      rw [Json.follow?, follow?, get?_toJson, Option.bind_map, Option.map_bind]
      exact congrArg _ (funext ih)
    | item i =>
      cases v with
      | list vs =>
        rw [toJson, Json.follow?, follow?, toJsonList_eq, List.getElem?_map, Option.bind_map,
          Option.map_bind]
        exact congrArg _ (funext ih)
      | float x =>
        rw [toJson, floatToJson]
        split <;> rfl
      | unit | text | bool | int | map => rfl

theorem mem_children_of_get? {key : String} {u v : Value} (h : v.get? key = some u) :
    u ∈ v.children := by
  cases v with
  | map es => exact List.mem_map_of_mem (Entries.mem_of_get? h)
  | unit | text | bool | int | float | list => cases h

/-- Where no key is repeated, first and last entries lead to the same places. -/
theorem follow?_latest {v : Value} (h : v.Everywhere HasDistinctKeys) (path : List Place) :
    v.follow? latest? path = v.follow? get? path := by
  induction path generalizing v with
  | nil => rfl
  | cons place path ih =>
    cases place with
    | entry key =>
      rw [follow?, follow?, latest?_eq_get? (h.self.occurrences_le key)]
      refine Option.bind_congr fun u hu => ih (h.child (mem_children_of_get? hu))
    | item i =>
      cases v with
      | list vs => exact Option.bind_congr fun u hu => ih (h.child (List.mem_of_getElem? hu))
      | unit | text | bool | int | float | map => rfl

/-- At every place of the document stands what is made of the value there, where maps find their
last entries. It has a member for just the keys that the value finds something under, made of what
the value finds if the key is not repeated; and a value without repeated keys finds everywhere what
the document has. -/
theorem toJson_lookup (v : Value) (path : List Place) :
    v.toJson.follow? path = (v.follow? latest? path).map toJson ∧
    (∀ key, ((v.toJson.get? key).isSome ↔ (v.get? key).isSome) ∧
      (v.occurrences key ≤ 1 → v.toJson.get? key = (v.get? key).map toJson)) ∧
    (v.Everywhere HasDistinctKeys → v.toJson.follow? path = (v.follow? get? path).map toJson) := by
  refine ⟨follow?_toJson path v, fun key => ⟨?_, fun hone => ?_⟩, fun hdistinct => ?_⟩
  · rw [get?_toJson, Option.isSome_map]
    exact isSome_latest? key v
  · rw [get?_toJson, latest?_eq_get? hone]
  · rw [follow?_toJson, follow?_latest hdistinct]

/-- A map in a list in a map, and a key beside one that is repeated. -/
theorem toJson_lookup_nested :
    (map [("a", .list [.unit, .map [("b", .text "x"), ("c", .bool true)]])]).Everywhere
      HasDistinctKeys ∧
    (map [("a", .list [.unit, .map [("b", .text "x"), ("c", .bool true)]])]).toJson.follow?
      [.entry "a", .item 1, .entry "b"] = some (.string "x") ∧
    (map [("a", .unit), ("b", .text "x"), ("a", .text "y")]).occurrences "b" ≤ 1 ∧
    (map [("a", .unit), ("b", .text "x"), ("a", .text "y")]).toJson.get? "b" =
      some (.string "x") := by
  have hdistinct :
      (map [("a", .list [.unit, .map [("b", .text "x"), ("c", .bool true)]])]).Everywhere
      HasDistinctKeys := by decide
  have hone : (map [("a", .unit), ("b", .text "x"), ("a", .text "y")]).occurrences "b" ≤ 1 := by
    decide
  refine ⟨hdistinct, ?_, hone, ?_⟩
  · exact (toJson_lookup _ [.entry "a", .item 1, .entry "b"]).2.2 hdistinct
  · exact ((toJson_lookup _ []).2.1 "b").2 hone

/-- Of a repeated key the value finds the first entry, and the document has the last. -/
theorem toJson_repeated_key :
    (map [("k", .int 1), ("k", .int 2)]).get? "k" = some (.int 1) ∧
    (map [("k", .int 1), ("k", .int 2)]).toJson.get? "k" = some (.int 2) ∧
      (int 1).toJson ≠ .int 2 := by
  refine ⟨rfl, rfl, ?_⟩
  intro h
  cases h

end Value

end Descent
