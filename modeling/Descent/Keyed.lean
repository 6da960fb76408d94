namespace Descent

/-- Values with keys, in any order; a key may occur more than once. -/
abbrev Entries (α : Type) := List (String × α)

namespace Entries

variable {α : Type}

/-- The keys ascend, and so each occurs once. -/
def Ascending (es : Entries α) : Prop := es.Pairwise fun e f => e.1 < f.1

/-- Puts an entry in its place; an entry with the same key makes way. -/
def insert (key : String) (value : α) : Entries α → Entries α
  | [] => [(key, value)]
  | (k, v) :: es =>
    if key < k then (key, value) :: (k, v) :: es
    else if key = k then (key, value) :: es
    else (k, v) :: insert key value es

def erase (key : String) (es : Entries α) : Entries α := es.filter fun e => e.1 ≠ key

/-- The value of the first entry with the key. -/
def get? (key : String) (es : Entries α) : Option α :=
  (es.find? fun e => e.1 = key).map Prod.snd

def keys (es : Entries α) : List String := es.map Prod.fst

theorem get?_cons (key : String) (e : String × α) (es : Entries α) :
    get? key (e :: es) = if e.1 = key then some e.2 else get? key es := by
  by_cases h : e.1 = key <;> simp [get?, h]

theorem mem_of_get? {key : String} {value : α} {es : Entries α} (h : get? key es = some value) :
    (key, value) ∈ es := by
  obtain ⟨e, he, rfl⟩ := Option.map_eq_some_iff.1 h
  have hmem := List.mem_of_find?_eq_some he
  have hkey := List.find?_some he
  rw [decide_eq_true_eq] at hkey
  rwa [← hkey]

theorem get?_of_mem {key : String} {value : α} {es : Entries α} (h : Ascending es)
    (he : (key, value) ∈ es) : get? key es = some value := by
  induction es with
  | nil => cases he
  | cons e es ih =>
    obtain ⟨hfirst, hes⟩ := List.pairwise_cons.1 h
    rw [get?_cons]
    rcases List.mem_cons.1 he with rfl | he
    · exact if_pos rfl
    · have hlt : e.1 < key := hfirst _ he
      have hne : e.1 ≠ key := fun heq => String.lt_irrefl key (heq ▸ hlt)
      rw [if_neg hne]
      exact ih hes he

theorem get?_map {β : Type} (f : α → β) (key : String) (es : Entries α) :
    get? key (es.map fun e => (e.1, f e.2)) = (get? key es).map f := by
  simp only [get?, List.find?_map, Option.map_map]
  rfl

theorem isSome_get? {key : String} {es : Entries α} : (get? key es).isSome ↔ key ∈ keys es := by
  induction es with
  | nil => simp [get?, keys]
  | cons e es ih =>
    rw [get?_cons, keys, List.map_cons, List.mem_cons]
    by_cases h : e.1 = key
    · simp [h]
    · rw [if_neg h, ih]
      simp [keys, Ne.symm h]

theorem get?_insert (key k : String) (value : α) (es : Entries α) :
    get? k (insert key value es) = if key = k then some value else get? k es := by
  induction es with
  | nil => exact get?_cons k (key, value) []
  | cons e es ih =>
    obtain ⟨l, v⟩ := e
    unfold insert
    split
    · exact get?_cons k (key, value) _
    · split
      · rename_i h
        subst h
        rw [get?_cons, get?_cons]
        split <;> rfl
      · rename_i h
        rw [get?_cons, get?_cons, ih]
        split
        · rename_i hl
          rw [if_neg (hl ▸ h)]
        · rfl

theorem mem_keys_insert {key k : String} {value : α} {es : Entries α} :
    k ∈ keys (insert key value es) ↔ k = key ∨ k ∈ keys es := by
  induction es with
  | nil => simp [insert, keys]
  | cons e es ih =>
    unfold insert
    split
    · simp [keys]
    · split
      · rename_i h
        simp [keys, h]
      · simp only [keys, List.map_cons, List.mem_cons] at ih ⊢
        rw [ih, or_left_comm]

theorem mem_insert {key : String} {value : α} {es : Entries α} {e : String × α}
    (h : e ∈ insert key value es) : e = (key, value) ∨ e ∈ es := by
  induction es with
  | nil => exact .inl (List.mem_singleton.1 h)
  | cons f es ih =>
    unfold insert at h
    split at h
    · exact List.mem_cons.1 h
    · split at h
      · exact (List.mem_cons.1 h).imp id (List.mem_cons_of_mem f)
      · rcases List.mem_cons.1 h with rfl | h
        · exact .inr List.mem_cons_self
        · exact (ih h).imp id (List.mem_cons_of_mem f)

theorem ascending_insert {key : String} {value : α} {es : Entries α} (h : Ascending es) :
    Ascending (insert key value es) := by
  induction es with
  | nil => simp [insert, Ascending]
  | cons e es ih =>
    obtain ⟨he, hes⟩ := List.pairwise_cons.1 h
    unfold insert
    split
    · rename_i hk
      refine List.pairwise_cons.2 ⟨fun f hf => ?_, h⟩
      rcases List.mem_cons.1 hf with rfl | hf
      · exact hk
      · exact String.lt_trans hk (he f hf)
    · split
      · rename_i hk
        exact List.pairwise_cons.2 ⟨fun f hf => hk ▸ he f hf, hes⟩
      · rename_i hlt hne
        refine List.pairwise_cons.2 ⟨fun f hf => ?_, ih hes⟩
        have hm : f.1 ∈ keys (insert key value es) := List.mem_map_of_mem hf
        rcases mem_keys_insert.1 hm with hf | hf
        · rw [hf]
          exact Std.lt_of_le_of_ne (Std.not_lt.1 hlt) (Ne.symm hne)
        · obtain ⟨g, hg, hgf⟩ := List.mem_map.1 hf
          exact hgf ▸ he g hg

end Entries

/-- Entries by ascending key. -/
@[ext] structure Keyed (α : Type) where
  entries : Entries α
  ascending : entries.Ascending

namespace Keyed

variable {α β : Type}

def empty : Keyed α := ⟨[], .nil⟩

@[simp] theorem entries_empty : (empty : Keyed α).entries = [] := rfl

def insert (key : String) (value : α) (d : Keyed α) : Keyed α :=
  ⟨d.entries.insert key value, Entries.ascending_insert d.ascending⟩

/-- The entries put in one after the other. -/
def ofList (es : Entries α) : Keyed α := es.foldl (fun d e => d.insert e.1 e.2) empty

def erase (key : String) (d : Keyed α) : Keyed α := ⟨d.entries.erase key, d.ascending.filter _⟩

def map (f : α → β) (d : Keyed α) : Keyed β where
  entries := d.entries.map fun e => (e.1, f e.2)
  ascending := List.pairwise_map.2 (d.ascending.imp fun h => h)

def get? (key : String) (d : Keyed α) : Option α := d.entries.get? key

def keys (d : Keyed α) : List String := d.entries.keys

instance : Membership (String × α) (Keyed α) where
  mem d e := e ∈ d.entries

def length (d : Keyed α) : Nat := d.entries.length

def isEmpty (d : Keyed α) : Bool := d.entries.isEmpty

theorem get?_insert (key k : String) (value : α) (d : Keyed α) :
    (d.insert key value).get? k = if key = k then some value else d.get? k :=
  Entries.get?_insert key k value d.entries

theorem isEmpty_eq_false_iff {d : Keyed α} : d.isEmpty = false ↔ d ≠ empty := by
  rw [isEmpty, List.isEmpty_eq_false_iff, ne_eq, ne_eq, Keyed.ext_iff, entries_empty]

theorem mem_def {d : Keyed α} {e : String × α} : e ∈ d ↔ e ∈ d.entries := .rfl

theorem mem_insert {key : String} {value : α} {d : Keyed α} {e : String × α}
    (h : e ∈ d.insert key value) : e = (key, value) ∨ e ∈ d :=
  Entries.mem_insert h

theorem mem_of_mem_erase {key : String} {d : Keyed α} {e : String × α} (h : e ∈ d.erase key) :
    e ∈ d :=
  (List.mem_filter.1 h).1

/-- As no key occurs twice, what is in there is found. -/
theorem get?_eq_some_iff {key : String} {value : α} {d : Keyed α} :
    d.get? key = some value ↔ (key, value) ∈ d :=
  ⟨Entries.mem_of_get?, Entries.get?_of_mem d.ascending⟩

theorem get?_map (f : α → β) (key : String) (d : Keyed α) :
    (d.map f).get? key = (d.get? key).map f :=
  Entries.get?_map f key d.entries

theorem isSome_get? {key : String} {d : Keyed α} : (d.get? key).isSome ↔ key ∈ d.keys :=
  Entries.isSome_get?

end Keyed

end Descent
