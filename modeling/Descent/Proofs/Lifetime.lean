import Mathlib.Data.Fintype.EquivFin
import Mathlib.Data.Set.Finite.Basic
import Mathlib.Order.WellFounded
import Descent.Grammar.Lifetime
import Descent.Proofs.Parts

namespace Descent

namespace Rule

/-- What the rule itself keeps alive, apart from the rules inside it. -/
def hold? : Rule → Option Hold
  | .recursive c => some (.cell c)
  | .registered g _ => some (.registry g)
  | _ => none

theorem mem_holdsList {h : Hold} {rs : List Rule} : h ∈ holdsList rs ↔ ∃ r ∈ rs, h ∈ r.holds := by
  induction rs with
  | nil => simp [holdsList]
  | cons r rs ih => simp [holdsList, ih]

theorem holds_eq (r : Rule) : r.holds = r.hold?.toList ++ holdsList r.children := by
  cases r <;> simp [holds, hold?, children, holdsList]

/-- A rule keeps alive what its parts do. -/
theorem mem_holds {h : Hold} {r : Rule} : h ∈ r.holds ↔ ∃ q ∈ r.parts, q.hold? = some h := by
  induction r using childInduction with
  | h r ih =>
    rw [holds_eq, parts_eq, List.mem_append, Option.mem_toList, mem_holdsList]
    simp only [List.mem_cons, mem_partsList]
    constructor
    · rintro (h | ⟨q, hq, h⟩)
      · exact ⟨r, .inl rfl, h⟩
      · obtain ⟨p, hp, h⟩ := (ih q hq).1 h
        exact ⟨p, .inr ⟨q, hq, hp⟩, h⟩
    · rintro ⟨p, rfl | ⟨q, hq, hp⟩, h⟩
      · exact .inl h
      · exact .inr ⟨q, hq, (ih q hq).2 ⟨p, hp, h⟩⟩

end Rule

namespace Store

variable {s t : Store} {roots : List Hold} {h k : Hold}

/-- What roots and what they keep alive lead to. -/
inductive Kept (s : Store) (roots : List Hold) : Hold → Prop
  | root {h : Hold} (hh : h ∈ roots) : Kept s roots h
  | held {h k : Hold} (hk : Kept s roots k) (hh : h ∈ s.holdsOf k) : Kept s roots h

theorem cell?_release (s : Store) (h : Hold) (c : CellId) :
    (s.release h).cell? c = if h = .cell c then none else s.cell? c := by
  cases h with
  | cell d =>
    simp only [release, cell?, List.getElem?_set, Hold.cell.injEq]
    split
    · split <;> rfl
    · rfl
  | registry g => rfl

theorem registry_release (s : Store) (h : Hold) (g : RegistryId) :
    (s.release h).registry g = if h = .registry g then .empty else s.registry g := by
  cases h with
  | cell d => rfl
  | registry d =>
    simp only [release, registry, List.getElem?_set, Hold.registry.injEq]
    split
    · split <;> rfl
    · rfl

theorem isFilled_release (s : Store) (h k : Hold) :
    (s.release h).isFilled k = if h = k then false else s.isFilled k := by
  cases k with
  | cell c =>
    rw [isFilled, isFilled, cell?_release]
    split <;> rfl
  | registry g =>
    rw [isFilled, isFilled, registry_release]
    split <;> rfl

theorem all_release (s : Store) (h : Hold) : (s.release h).all = s.all := by
  cases h <;> simp [all, release]

theorem mem_all_of_isFilled (h : s.isFilled k) : k ∈ s.all := by
  cases k with
  | cell c =>
    refine List.mem_append_left _
      (List.mem_map_of_mem (List.mem_range.2 (Nat.lt_of_not_le fun hc => ?_)))
    rw [isFilled, cell?, List.getElem?_eq_none hc] at h
    cases h
  | registry g =>
    refine List.mem_append_right _
      (List.mem_map_of_mem (List.mem_range.2 (Nat.lt_of_not_le fun hg => ?_)))
    rw [isFilled, registry, List.getElem?_eq_none hg] at h
    cases h

theorem mem_holdsOf_cell {c : CellId} :
    h ∈ s.holdsOf (.cell c) ↔ ∃ r, s.cell? c = some r ∧ h ∈ r.holds := by
  rw [holdsOf]
  cases s.cell? c with
  | none => simp
  | some r => simp

theorem mem_holdsOf_registry {g : RegistryId} :
    h ∈ s.holdsOf (.registry g) ↔ ∃ e ∈ s.registry g, h ∈ e.2.holds := List.mem_flatMap

theorem isFilled_of_holds (hk : h ∈ s.holdsOf k) : s.isFilled k := by
  cases k with
  | cell c =>
    obtain ⟨r, hr, -⟩ := mem_holdsOf_cell.1 hk
    rw [isFilled, hr]
    rfl
  | registry g =>
    obtain ⟨e, he, -⟩ := mem_holdsOf_registry.1 hk
    rw [isFilled, Bool.not_eq_true']
    exact List.isEmpty_eq_false_iff.2 (List.ne_nil_of_mem he)

theorem Kept.isHeld (h : s.Kept roots k) : s.isHeld roots k := by
  rw [Store.isHeld, Bool.or_eq_true]
  cases h with
  | root hh => exact .inl (List.contains_iff_mem.2 hh)
  | held hk hh =>
    exact .inr (List.any_eq_true.2 ⟨_, mem_all_of_isFilled (isFilled_of_holds hh),
      List.contains_iff_mem.2 hh⟩)

/-- What is true of the roots, and of all that is held by what it is true of, is true of all that is
kept. -/
theorem Kept.closed {P : Hold → Prop} (hroots : ∀ h ∈ roots, P h)
    (hheld : ∀ k h, P k → h ∈ s.holdsOf k → P h) (hk : s.Kept roots k) : P k := by
  induction hk with
  | root hh => exact hroots _ hh
  | held _ hh ih => exact hheld _ _ ih hh

/-- What a sweep comes to: cells and registries as they were, or empty if the roots do not lead to
them. -/
structure Swept (s : Store) (roots : List Hold) (t : Store) : Prop where
  cells : t.cells.length = s.cells.length
  registries : t.registries.length = s.registries.length
  cell : ∀ c, t.cell? c = s.cell? c ∨ t.cell? c = none ∧ ¬ s.Kept roots (.cell c)
  registry : ∀ g, t.registry g = s.registry g ∨ t.registry g = .empty ∧ ¬ s.Kept roots (.registry g)

theorem Swept.refl (s : Store) (roots : List Hold) : s.Swept roots s where
  cells := rfl
  registries := rfl
  cell _ := .inl rfl
  registry _ := .inl rfl

theorem swept_release (hh : ¬ s.isHeld roots h) : s.Swept roots (s.release h) where
  cells := by cases h <;> simp [release]
  registries := by cases h <;> simp [release]
  cell c := by
    rw [cell?_release]
    split
    · rename_i heq
      exact .inr ⟨rfl, fun hk => hh (heq ▸ hk.isHeld)⟩
    · exact .inl rfl
  registry g := by
    rw [registry_release]
    split
    · rename_i heq
      exact .inr ⟨rfl, fun hk => hh (heq ▸ hk.isHeld)⟩
    · exact .inl rfl

namespace Swept

variable (hs : s.Swept roots t)
include hs

theorem holdsOf (k : Hold) : t.holdsOf k = s.holdsOf k ∨ t.holdsOf k = [] ∧ ¬ s.Kept roots k := by
  cases k with
  | cell c =>
    rw [Store.holdsOf, Store.holdsOf]
    rcases hs.cell c with h | ⟨h, hk⟩
    · exact .inl (by rw [h])
    · exact .inr ⟨by rw [h]; rfl, hk⟩
  | registry g =>
    rw [Store.holdsOf, Store.holdsOf]
    rcases hs.registry g with h | ⟨h, hk⟩
    · exact .inl (by rw [h])
    · exact .inr ⟨by rw [h]; rfl, hk⟩

theorem cell?_of_kept {c : CellId} (hc : s.Kept roots (.cell c)) : t.cell? c = s.cell? c :=
  (hs.cell c).resolve_right fun h => h.2 hc

theorem registry_of_kept {g : RegistryId} (hg : s.Kept roots (.registry g)) :
    t.registry g = s.registry g :=
  (hs.registry g).resolve_right fun h => h.2 hg

/-- A sweep changes nothing about what the roots lead to. -/
theorem kept : t.Kept roots k ↔ s.Kept roots k := by
  constructor
  · refine Kept.closed (fun _ => .root) fun k h hk hh => ?_
    rcases hs.holdsOf k with heq | ⟨hnil, -⟩
    · exact .held hk (heq ▸ hh)
    · rw [hnil] at hh
      cases hh
  · intro hk
    induction hk with
    | root hh => exact .root hh
    | held hk hh ih =>
      have heq := (hs.holdsOf _).resolve_right fun h => h.2 hk
      exact .held ih (heq ▸ hh)

theorem trans {u : Store} (ht : t.Swept roots u) : s.Swept roots u where
  cells := ht.cells.trans hs.cells
  registries := ht.registries.trans hs.registries
  cell c := by
    rcases ht.cell c with h | ⟨h, hk⟩
    · rw [h]
      exact hs.cell c
    · exact .inr ⟨h, fun hs' => hk (hs.kept.2 hs')⟩
  registry g := by
    rcases ht.registry g with h | ⟨h, hk⟩
    · rw [h]
      exact hs.registry g
    · exact .inr ⟨h, fun hs' => hk (hs.kept.2 hs')⟩

end Swept

theorem sweepTurns_swept (roots : List Hold) (turns : Nat) (s : Store) :
    s.Swept roots (sweepTurns roots turns s) := by
  induction turns generalizing s with
  | zero => exact .refl s roots
  | succ turns ih =>
    rw [sweepTurns]
    split
    · rename_i h hfind
      have hh := List.find?_some hfind
      simp only [Bool.and_eq_true, Bool.not_eq_true'] at hh
      exact (swept_release (by simp [hh.2])).trans (ih _)
    · exact .refl s roots

theorem swept_sweep (s : Store) (roots : List Hold) : s.Swept roots (s.sweep roots) :=
  sweepTurns_swept roots _ s

/-- How many cells and registries there is something in. -/
def filled (s : Store) : Nat := s.all.countP s.isFilled

theorem filled_release_lt (h : s.isFilled k) : (s.release k).filled < s.filled := by
  obtain ⟨before, behind, hall⟩ := List.append_of_mem (mem_all_of_isFilled h)
  have hle (hs : List Hold) : hs.countP (s.release k).isFilled ≤ hs.countP s.isFilled := by
    refine List.countP_mono_left fun x _ hx => ?_
    rw [isFilled_release] at hx
    split at hx
    · cases hx
    · exact hx
  have hk : (s.release k).isFilled k = false := by rw [isFilled_release, if_pos rfl]
  have hbefore := hle before
  have hbehind := hle behind
  rw [filled, filled, all_release, hall, List.countP_append, List.countP_append,
    List.countP_cons_of_pos h, List.countP_cons_of_neg (by simp [hk])]
  omega

/-- With enough turns nothing is left that is not held. -/
theorem isHeld_sweepTurns {turns : Nat} (hturns : s.filled ≤ turns)
    (hk : (sweepTurns roots turns s).isFilled k) : (sweepTurns roots turns s).isHeld roots k := by
  induction turns generalizing s with
  | zero =>
    rw [sweepTurns] at hk
    have hnone := List.countP_eq_zero.1 (Nat.le_zero.1 hturns) k (mem_all_of_isFilled hk)
    exact absurd hk hnone
  | succ turns ih =>
    rw [sweepTurns] at hk ⊢
    split at hk
    · rename_i h hfind
      have hh := List.find?_some hfind
      rw [Bool.and_eq_true] at hh
      have hlt := filled_release_lt hh.1
      exact ih (by omega) hk
    · rename_i hfind
      have hheld := List.find?_eq_none.1 hfind k (mem_all_of_isFilled hk)
      simpa [hk] using hheld

/-- The cell or registry `k` keeps `h` alive. -/
def Owns (s : Store) (k h : Hold) : Prop := h ∈ s.holdsOf k

/-- Ownership that leads back to nothing can be followed upwards to its end. -/
theorem owns_wellFounded (h : ∀ k, ¬ Relation.TransGen t.Owns k k) : WellFounded t.Owns := by
  let above (a b : { k // k ∈ t.all }) : Prop := Relation.TransGen t.Owns a b
  have : IsTrans _ above := ⟨fun _ _ _ hab hbc => hab.trans hbc⟩
  have : Std.Irrefl above := ⟨fun a => h a⟩
  have hwf : WellFounded above := Finite.wellFounded_of_trans_of_irrefl above
  have hacc (a : { k // k ∈ t.all }) : Acc t.Owns a := by
    induction a using hwf.induction with
    | _ a ih =>
      exact ⟨_, fun k hk => ih ⟨k, mem_all_of_isFilled (isFilled_of_holds hk)⟩ (.single hk)⟩
  exact ⟨fun k => ⟨_, fun k' hk => hacc ⟨k', mem_all_of_isFilled (isFilled_of_holds hk)⟩⟩⟩

/-- A sweep leaves nothing that the roots do not lead to, unless something owns itself. -/
theorem kept_of_isFilled (h : ∀ k, ¬ Relation.TransGen (s.sweep roots).Owns k k)
    (hk : (s.sweep roots).isFilled k) : s.Kept roots k := by
  rw [← (swept_sweep s roots).kept]
  induction k using (owns_wellFounded h).induction with
  | _ k ih =>
    have hheld := isHeld_sweepTurns (List.countP_le_length : s.filled ≤ s.all.length) hk
    rw [isHeld, Bool.or_eq_true] at hheld
    rcases hheld with hroot | hany
    · exact .root (List.contains_iff_mem.1 hroot)
    · obtain ⟨k', _, hk'⟩ := List.any_eq_true.1 hany
      have howns : (s.sweep roots).Owns k' k := List.contains_iff_mem.1 hk'
      exact .held (ih k' howns (isFilled_of_holds howns)) howns

theorem cell?_sweep_of_kept {c : CellId} (h : s.Kept roots (.cell c)) :
    (s.sweep roots).cell? c = s.cell? c :=
  (swept_sweep s roots).cell?_of_kept h

end Store

end Descent
