import Descent.Proofs.Lookup

namespace Descent

namespace Entries

variable {α : Type}

theorem keys_map {β : Type} (f : α → β) (es : Entries α) :
    keys (es.map fun e => (e.1, f e.2)) = keys es := by
  rw [keys, List.map_map]
  rfl

theorem insert_perm {key : String} {value : α} {es : Entries α} (h : key ∉ keys es) :
    (insert key value es).Perm ((key, value) :: es) := by
  induction es with
  | nil => exact .rfl
  | cons e es ih =>
    rw [keys, List.map_cons, List.mem_cons, not_or] at h
    unfold insert
    split
    · exact .rfl
    · rw [if_neg h.1]
      exact ((ih h.2).cons e).trans (.swap _ _ _)

end Entries

namespace Keyed

variable {α : Type} {es fs : Entries α}

theorem ofList_perm (h : es.keys.Nodup) : (ofList es).entries.Perm es := by
  induction es using List.reverseRecOn with
  | nil => exact .rfl
  | append_singleton es e ih =>
    rw [Entries.keys, List.map_append, List.nodup_append] at h
    obtain ⟨hes, _, hnew⟩ := h
    have hkeys : (ofList es).keys.Perm (Entries.keys es) := (ih hes).map _
    have hmem : e.1 ∉ (ofList es).keys :=
      fun hm => hnew _ (hkeys.mem_iff.1 hm) _ List.mem_cons_self rfl
    rw [ofList_concat]
    have hcons : ((ofList es).insert e.1 e.2).entries.Perm (e :: es) :=
      (Entries.insert_perm hmem).trans ((ih hes).cons e)
    exact hcons.trans (List.perm_append_singleton e es).symm

/-- What is kept by ascending key has forgotten the order, and nothing else if no key is
repeated. -/
theorem ofList_eq_iff (hes : es.keys.Nodup) (hfs : fs.keys.Nodup) :
    ofList es = ofList fs ↔ es.Perm fs := by
  constructor
  · intro h
    exact (ofList_perm hes).symm.trans (h ▸ ofList_perm hfs)
  · intro h
    refine Keyed.ext (List.Perm.eq_of_pairwise (fun e f _ _ hef hfe => ?_) (ofList es).ascending
      (ofList fs).ascending ((ofList_perm hes).trans (h.trans (ofList_perm hfs).symm)))
    exact absurd (String.lt_trans hef hfe) (String.lt_irrefl _)

end Keyed

namespace Value

def isFloat : Value → Bool
  | .float _ => true
  | _ => false

mutual

/-- Both values are the same but for the order of the entries of maps, at every depth. -/
def Reordered : Value → Value → Prop
  | .unit, .unit => True
  | .text s, .text t => s = t
  | .list vs, .list ws => ReorderedList vs ws
  | .bool a, .bool b => a = b
  | .int m, .int n => m = n
  | .float x, .float y => x = y
  | .map es, .map fs => ReorderedEntries es fs
  | _, _ => False

def ReorderedList : List Value → List Value → Prop
  | [], [] => True
  | v :: vs, w :: ws => v.Reordered w ∧ ReorderedList vs ws
  | _, _ => False

/-- Each of the entries has one of its own on the other side, with the same key and a value that is
the same but for such an order. -/
def ReorderedEntries : List (String × Value) → List (String × Value) → Prop
  | [], fs => fs = []
  | (k, v) :: es, fs => ∃ front w back, fs = front ++ (k, w) :: back ∧ v.Reordered w ∧
      ReorderedEntries es (front ++ back)

end

theorem map_toJson_eq_iff {vs ws : List Value}
    (h : ∀ v ∈ vs, ∀ w ∈ ws, v.toJson = w.toJson ↔ v.Reordered w) :
    vs.map toJson = ws.map toJson ↔ ReorderedList vs ws := by
  induction vs generalizing ws with
  | nil => cases ws <;> simp [ReorderedList]
  | cons v vs ih =>
    cases ws with
    | nil => simp [ReorderedList]
    | cons w ws =>
      have hhead := h v List.mem_cons_self w List.mem_cons_self
      have htail :=
        ih fun v hv w hw => h v (List.mem_cons_of_mem _ hv) w (List.mem_cons_of_mem _ hw)
      rw [List.map_cons, List.map_cons, List.cons.injEq, hhead, htail, ReorderedList]

theorem map_toJson_perm_iff {es fs : List (String × Value)}
    (h : ∀ e ∈ es, ∀ f ∈ fs, e.2.toJson = f.2.toJson ↔ e.2.Reordered f.2) :
    (es.map fun e => (e.1, e.2.toJson)).Perm (fs.map fun e => (e.1, e.2.toJson)) ↔
      ReorderedEntries es fs := by
  induction es generalizing fs with
  | nil => simp [ReorderedEntries]
  | cons e es ih =>
    obtain ⟨k, v⟩ := e
    -- With the partner of the first entry taken out, the others are permuted.
    have hrest {front back : List (String × Value)} {w : Value} (hfs : fs = front ++ (k, w) :: back)
        (hvw : v.toJson = w.toJson) :
        (((k, v) :: es).map fun e => (e.1, e.2.toJson)).Perm (fs.map fun e => (e.1, e.2.toJson)) ↔
          ReorderedEntries es (front ++ back) := by
      subst hfs
      have hmiddle : ((front ++ (k, w) :: back).map fun e => (e.1, e.2.toJson)).Perm
          ((k, v.toJson) :: (front ++ back).map fun e => (e.1, e.2.toJson)) := by
        rw [hvw, List.map_append, List.map_append]
        exact List.perm_middle
      rw [hmiddle.congr_right, List.map_cons, List.perm_cons]
      refine ih fun e he f hf => h e (List.mem_cons_of_mem _ he) f ?_
      rcases List.mem_append.1 hf with hf | hf
      · exact List.mem_append_left _ hf
      · exact List.mem_append_right _ (List.mem_cons_of_mem _ hf)
    rw [ReorderedEntries]
    constructor
    · intro hperm
      obtain ⟨⟨l, w⟩, hf, heq⟩ := List.mem_map.1 (hperm.subset List.mem_cons_self)
      obtain ⟨rfl, hwv⟩ := Prod.mk.inj heq
      obtain ⟨front, back, hfs⟩ := List.append_of_mem hf
      exact ⟨front, w, back, hfs, (h _ List.mem_cons_self _ hf).1 hwv.symm,
        (hrest hfs hwv.symm).1 hperm⟩
    · rintro ⟨front, w, back, hfs, hvw, hes⟩
      have hf : (k, w) ∈ fs := hfs ▸ List.mem_append_right _ List.mem_cons_self
      exact (hrest hfs ((h _ List.mem_cons_self _ hf).2 hvw)).2 hes

/-- Values without floating-point numbers and without repeated keys have the same document just if
they are the same but for the order of the entries of maps. -/
theorem toJson_eq_iff {v w : Value}
    (hv : v.Everywhere fun u => u.isFloat = false ∧ u.HasDistinctKeys)
    (hw : w.Everywhere fun u => u.isFloat = false ∧ u.HasDistinctKeys) :
    v.toJson = w.toJson ↔ v.Reordered w := by
  induction v using childInduction generalizing w with
  | h v ih =>
    have hchild : ∀ a ∈ v.children, ∀ b ∈ w.children, a.toJson = b.toJson ↔ a.Reordered b :=
      fun a ha b hb => ih a ha (hv.child ha) (hw.child hb)
    cases v with
    | float => cases hv.self.1
    | list vs =>
      cases w with
      | list ws =>
        rw [toJson, toJson, Json.array.injEq, toJsonList_eq, toJsonList_eq, Reordered]
        exact map_toJson_eq_iff hchild
      | float => cases hw.self.1
      | unit | text | bool | int | map => simp [toJson, Reordered, Json.ofMembers]
    | map es =>
      cases w with
      | map fs =>
        have hentry : ∀ e ∈ es, ∀ f ∈ fs, e.2.toJson = f.2.toJson ↔ e.2.Reordered f.2 :=
          fun e he f hf => hchild _ (List.mem_map_of_mem he) _ (List.mem_map_of_mem hf)
        rw [toJson, toJson, Json.ofMembers, Json.ofMembers, Json.object.injEq, toJsonEntries_eq,
          toJsonEntries_eq, ← Keyed.ext_iff, Reordered, ← map_toJson_perm_iff hentry]
        refine Keyed.ofList_eq_iff ?_ ?_
        · rw [Entries.keys_map]
          exact hv.self.2
        · rw [Entries.keys_map]
          exact hw.self.2
      | float => cases hw.self.1
      | unit | text | bool | int | list => simp [toJson, Reordered, Json.ofMembers]
    | unit | text | bool | int =>
      cases w with
      | float => cases hw.self.1
      | unit | text | bool | int | list | map =>
        simp [toJson, Reordered, Json.ofMembers, Int64.toInt_inj]

/-- Two maps, both with the entries of a map inside them the other way round. -/
theorem toJson_eq_iff_swapped :
    ∃ v w : Value, v.Everywhere (fun u => u.isFloat = false ∧ u.HasDistinctKeys) ∧
    w.Everywhere (fun u => u.isFloat = false ∧ u.HasDistinctKeys) ∧ v.Reordered w ∧
      v.toJson = w.toJson ∧
    ¬ v.Reordered (map [("a", .list [.unit])]) := by
  let v := map [("a", .list [.unit, .map [("b", .int 1), ("c", .text "x")]]), ("d", .bool true)]
  let w := map [("d", .bool true), ("a", .list [.unit, .map [("c", .text "x"), ("b", .int 1)]])]
  have hv : v.Everywhere fun u => u.isFloat = false ∧ u.HasDistinctKeys := by decide
  have hw : w.Everywhere fun u => u.isFloat = false ∧ u.HasDistinctKeys := by decide
  have hinner :
      ReorderedEntries [("b", .int 1), ("c", .text "x")] [("c", .text "x"), ("b", .int 1)] :=
    ⟨[("c", .text "x")], .int 1, [], rfl, rfl, [], .text "x", [], rfl, rfl, rfl⟩
  have hvw : v.Reordered w :=
    ⟨[("d", .bool true)], _, [], rfl, ⟨trivial, hinner, trivial⟩, [], .bool true, [], rfl, rfl, rfl⟩
  refine ⟨v, w, hv, hw, hvw, (toJson_eq_iff hv hw).2 hvw, fun h => ?_⟩
  have hsame := (toJson_eq_iff hv (by decide)).2 h
  cases hsame

end Value

end Descent
