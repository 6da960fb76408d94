import Descent.Proofs.Lifetime
import Descent.Proofs.LateBinding

namespace Descent

namespace Recipe

/-- Building goes on the same way in any store with as many cells. -/
theorem build_congr (e : Recipe) (given : Supply) {s t : Store}
    (h : t.cells.length = s.cells.length) :
    ∃ r cells, e.build s given = (r, s.extend cells) ∧ e.build t given = (r, t.extend cells) ∧
      Built given s.cells.length [r] cells := by
  obtain ⟨cells, hstore, hbuilt⟩ := build_built e s given
  let same : Links := ⟨.handle, .recursive, .reference⟩
  have hself (r : Rule) : r.relink same = r := Rule.relink_eq_self fun q _ hq => by
    cases q with
    | handle | recursive | reference => rfl
    | _ => cases hq
  have hshift : same.Shifts s.cells.length t.cells.length cells.length := fun i _ => by
    rw [h]
    exact ⟨rfl, rfl⟩
  have hbuild := build_relink e (fun n => (hself (given n)).symm) hstore hshift
  have hcells : cells.map (Rule.relink same) = cells :=
    (List.map_congr_left fun r _ => hself r).trans (List.map_id _)
  rw [hself, hcells] at hbuild
  exact ⟨_, cells, by rw [← hstore], hbuild, hbuilt⟩

namespace Built

variable {given : Supply} {next : Nat} {rs cells : List Rule} {P : Hold → Prop}

/-- What is built keeps alive what the given rules do, and new cells. -/
theorem holds (h : Built given next rs cells) (hgiven : ∀ n, ∀ k ∈ (given n).holds, P k)
    (hcell : ∀ c, next ≤ c → P (.cell c)) : ∀ r ∈ rs ++ cells, ∀ k ∈ r.holds, P k := by
  intro r hr k hk
  obtain ⟨q, hq, hqk⟩ := Rule.mem_holds.1 hk
  refine h.parts (P := fun q => ∀ k, q.hold? = some k → P k) (fun q hq k hk => ?_)
    (fun c hc _ => ⟨?_, ?_⟩)
    (fun n q hq k hk => hgiven n k (Rule.mem_holds.2 ⟨q, hq, hk⟩)) (Nat.le_refl _) (Nat.le_refl _)
      r hr q hq k hqk
  · cases q with
    | recursive | registered => cases hq
    | _ => cases hk
  · intro k hk
    cases hk
  · rintro k ⟨⟩
    exact hcell c hc

/-- The rule in a new cell holds no new cells but those behind its own. -/
theorem above (h : Built given next rs cells) (hgiven : ∀ n, ∀ k ∈ (given n).holds, P k)
    {i : Nat} {r : Rule} (hr : cells[i]? = some r) :
    ∀ k ∈ r.holds, P k ∨ ∃ c : Nat, next+i < c ∧ k = .cell c := by
  induction h generalizing i with
  | nil => cases hr
  | given n _ ih => exact ih hgiven hr
  | @recursive given next q rs inner cells hbody _ ihbody ih =>
    have hpush (n : Nat) : ∀ k ∈ (given.push (.handle next) n).holds, P k := by
      cases n with
      | zero => exact fun _ hk => absurd hk List.not_mem_nil
      | succ n => exact hgiven n
    -- The cell of the rule itself, then the cells of its body, then those of the rules behind it.
    cases i with
    | zero =>
      obtain rfl := Option.some.inj hr
      exact hbody.holds (fun n k hk => .inl (hpush n k hk)) (fun c hc => .inr ⟨c, hc, rfl⟩) q
        List.mem_cons_self
    | succ i =>
      rw [List.cons_append, List.getElem?_cons_succ] at hr
      rcases Nat.lt_or_ge i inner.length with hi | hi
      · rw [List.getElem?_append_left hi] at hr
        have hinner := ihbody hpush hr
        rwa [Nat.add_assoc, Nat.add_comm 1] at hinner
      · rw [List.getElem?_append_right hi] at hr
        have hrest := ih hgiven hr
        rwa [show next+1+inner.length+(i-inner.length) = next+(i+1) by omega] at hrest
  | @operator given next q rs inner cells _ _ _ ihargs ih =>
    rcases Nat.lt_or_ge i inner.length with hi | hi
    · exact ihargs hgiven (List.getElem?_append_left hi ▸ hr)
    · rw [List.getElem?_append_right hi] at hr
      have hrest := ih hgiven hr
      rwa [Nat.add_assoc, Nat.add_sub_cancel' hi] at hrest

end Built

end Recipe

namespace Store

variable {s t : Store} {roots roots' : List Hold} {cells : List Rule}

theorem Kept.of_roots {k : Hold} (hroots : ∀ h ∈ roots', s.Kept roots h) (hk : s.Kept roots' k) :
    s.Kept roots k :=
  hk.closed hroots fun _ _ hk hh => .held hk hh

theorem registry_define (g h : RegistryId) (name : String) (r : Rule) :
    (s.define g name r).registry h =
    if h = g ∧ g < s.registries.length then (s.registry h).insert name r else s.registry h := by
  rw [registry, define, List.getElem?_modify]
  by_cases hg : g < s.registries.length
  · by_cases hh : h = g
    · subst hh
      simp [registry, hg]
    · simp [registry, hh, Ne.symm hh]
  · rw [if_neg fun hc => hg hc.2]
    split
    · rename_i heq
      subst heq
      simp [registry, hg]
    · simp [registry]

theorem holdsOf_extend_of_lt {c : CellId} (h : c < s.cells.length) :
    (s.extend cells).holdsOf (.cell c) = s.holdsOf (.cell c) := by
  rw [holdsOf, holdsOf, cell?_extend_of_lt h]

/-- What a cell that was not there before holds. -/
theorem mem_holdsOf_extend {c : Nat} (hc : s.cells.length ≤ c) {h : Hold}
    (hh : h ∈ (s.extend cells).holdsOf (.cell c)) :
    ∃ r, cells[c-s.cells.length]? = some r ∧ h ∈ r.holds := by
  obtain ⟨i, rfl⟩ := Nat.exists_eq_add_of_le hc
  obtain ⟨r, hr, hh⟩ := mem_holdsOf_cell.1 hh
  rw [cell?_extend_add] at hr
  rw [Nat.add_sub_cancel_left]
  exact ⟨r, hr, hh⟩

theorem holdsOf_newRegistry (s : Store) (k : Hold) : s.newRegistry.2.holdsOf k = s.holdsOf k := by
  cases k with
  | cell => rfl
  | registry g => rw [holdsOf, holdsOf, registry_newRegistry]

namespace Swept

theorem mono (hs : s.Swept roots t) (hroots : ∀ h ∈ roots', s.Kept roots h) : s.Swept roots' t where
  cells := hs.cells
  registries := hs.registries
  cell c := (hs.cell c).imp_right (And.imp_right fun h hk => h (hk.of_roots hroots))
  registry g := (hs.registry g).imp_right (And.imp_right fun h hk => h (hk.of_roots hroots))

theorem newRegistry (hs : s.Swept roots t)
    (hroots : ∀ h ∈ roots', s.Kept roots h ∨ h = .registry s.registries.length) :
    s.newRegistry.2.Swept roots' t.newRegistry.2 := by
  have hkept {k : Hold} (hk : s.newRegistry.2.Kept roots' k) :
      s.Kept roots k ∨ k = .registry s.registries.length := by
    refine hk.closed hroots fun k h hk hh => ?_
    rw [holdsOf_newRegistry] at hh
    rcases hk with hk | rfl
    · exact .inl (.held hk hh)
    · obtain ⟨e, he, -⟩ := mem_holdsOf_registry.1 hh
      rw [registry_of_le (Nat.le_refl _)] at he
      cases he
  refine ⟨hs.cells, by simp [Store.newRegistry, hs.registries], fun c => ?_, fun g => ?_⟩
  · refine (hs.cell c).imp_right (And.imp_right fun h hk => ?_)
    rcases hkept hk with hk | hk
    · exact h hk
    · cases hk
  · rw [registry_newRegistry, registry_newRegistry]
    rcases hs.registry g with h | ⟨h, hnot⟩
    · exact .inl h
    · by_cases hg : g = s.registries.length
      · exact .inl (by rw [h, hg, registry_of_le (Nat.le_refl _)])
      · refine .inr ⟨h, fun hk => (hkept hk).elim hnot fun heq => hg (Hold.registry.inj heq)⟩

/-- The same new cells in both stores, if all that they hold is kept or new itself. -/
theorem extend (hs : s.Swept roots t)
    (hcells : ∀ r ∈ cells, ∀ h ∈ r.holds, s.Kept roots h ∨ ∃ c, s.cells.length ≤ c ∧ h = .cell c)
    (hroots : ∀ h ∈ roots', s.Kept roots h ∨ ∃ c, s.cells.length ≤ c ∧ h = .cell c) :
    (s.extend cells).Swept roots' (t.extend cells) := by
  have hkept {k : Hold} (hk : (s.extend cells).Kept roots' k) :
      s.Kept roots k ∨ ∃ c, s.cells.length ≤ c ∧ k = .cell c := by
    refine hk.closed hroots fun k h hk hh => ?_
    have hnew {c : CellId} (hc : s.cells.length ≤ c) (hh : h ∈ (s.extend cells).holdsOf (.cell c)) :
        s.Kept roots h ∨ ∃ c, s.cells.length ≤ c ∧ h = .cell c := by
      obtain ⟨r, hr, hh⟩ := mem_holdsOf_extend hc hh
      exact hcells r (List.mem_of_getElem? hr) h hh
    rcases hk with hk | ⟨c, hc, rfl⟩
    · cases k with
      | cell c =>
        rcases Nat.lt_or_ge c s.cells.length with hc | hc
        · exact .inl (.held hk (holdsOf_extend_of_lt hc ▸ hh))
        · exact hnew hc hh
      | registry g => exact .inl (.held hk hh)
    · exact hnew hc hh
  refine ⟨by simp [hs.cells], by simp [hs.registries], fun c => ?_, fun g => ?_⟩
  · rcases Nat.lt_or_ge c s.cells.length with hc | hc
    · rw [cell?_extend_of_lt hc, cell?_extend_of_lt (hs.cells ▸ hc)]
      refine (hs.cell c).imp_right (And.imp_right fun h hk => ?_)
      rcases hkept hk with hk | ⟨d, hd, heq⟩
      · exact h hk
      · obtain rfl := Hold.cell.inj heq
        exact absurd hc (Nat.not_lt.2 hd)
    · obtain ⟨i, rfl⟩ := Nat.exists_eq_add_of_le hc
      left
      rw [cell?_extend_add, ← hs.cells, cell?_extend_add]
  · refine (hs.registry g).imp_right (And.imp_right fun h hk => ?_)
    rcases hkept hk with hk | ⟨_, _, heq⟩
    · exact h hk
    · cases heq

/-- The same rule bound in both stores, if its registry is kept and all that it holds. -/
theorem define {g : RegistryId} {r : Rule} (hs : s.Swept roots t) (hg : s.Kept roots (.registry g))
    (hr : ∀ h ∈ r.holds, s.Kept roots h) (name : String) :
    (s.define g name r).Swept roots (t.define g name r) := by
  have hkept {k : Hold} (hk : (s.define g name r).Kept roots k) : s.Kept roots k := by
    refine hk.closed (fun _ => .root) fun k h hk hh => ?_
    cases k with
    | cell => exact .held hk hh
    | registry d =>
      obtain ⟨e, he, hh⟩ := mem_holdsOf_registry.1 hh
      rw [registry_define] at he
      split at he
      · rcases Keyed.mem_insert he with rfl | he
        · exact hr h hh
        · exact .held hk (mem_holdsOf_registry.2 ⟨e, he, hh⟩)
      · exact .held hk (mem_holdsOf_registry.2 ⟨e, he, hh⟩)
  refine ⟨hs.cells, by simp [Store.define, hs.registries], fun c => ?_, fun d => ?_⟩
  · exact (hs.cell c).imp_right (And.imp_right fun h hk => h (hkept hk))
  · rw [registry_define, registry_define, hs.registries]
    split
    · rename_i hd
      obtain ⟨rfl, -⟩ := hd
      exact .inl (by rw [hs.registry_of_kept hg])
    · exact (hs.registry d).imp_right (And.imp_right fun h hk => h (hkept hk))

theorem settle (hs : s.Swept roots t) : s.Swept roots (t.sweep roots) :=
  hs.trans (swept_sweep t roots)

end Swept

/-- The cell `b` owns the cell `c` itself, not by way of others. -/
def CellOwns (s : Store) (b c : CellId) : Prop := s.Owns (.cell b) (.cell c)

/-- No cell owns itself by way of cells alone. -/
def Grounded (s : Store) : Prop := ∀ c, ¬ Relation.TransGen s.CellOwns c c

theorem Swept.grounded (hs : s.Swept roots t) (hground : s.Grounded) : t.Grounded := by
  refine fun c hc => hground c (Relation.TransGen.mono (fun a b h => ?_) c c hc)
  rw [CellOwns, Owns] at h ⊢
  rcases hs.holdsOf (.cell a) with heq | ⟨hnil, -⟩
  · rwa [heq] at h
  · rw [hnil] at h
    cases h

theorem lt_of_holds {r : Rule} (hr : r.Anchored s) {c : CellId} (h : .cell c ∈ r.holds) :
    c < s.cells.length := by
  obtain ⟨q, hq, hc⟩ := Rule.mem_holds.1 h
  cases q with
  | recursive d =>
    obtain rfl := Hold.cell.inj (Option.some.inj hc)
    exact of_decide_eq_true (hr _ hq)
  | _ => cases hc

/-- New cells own old ones and those behind them, and no old cell owns a new one. -/
theorem grounded_extend (hs : s.Grounded) (hanchored : s.Anchored)
    (hcells : ∀ i r, cells[i]? = some r →
      ∀ c : Nat, .cell c ∈ r.holds → c < s.cells.length ∨ s.cells.length+i < c) :
    (s.extend cells).Grounded := by
  have hold {b c : Nat} (hb : b < s.cells.length) (h : (s.extend cells).CellOwns b c) :
      c < s.cells.length ∧ s.CellOwns b c := by
    rw [CellOwns, Owns, holdsOf_extend_of_lt hb] at h
    obtain ⟨r, hr, hc⟩ := mem_holdsOf_cell.1 h
    exact ⟨lt_of_holds (hanchored.cell hr) hc, h⟩
  have hnew {b c : Nat} (hb : s.cells.length ≤ b) (h : (s.extend cells).CellOwns b c) :
      c < s.cells.length ∨ b < c := by
    obtain ⟨r, hr, hc⟩ := mem_holdsOf_extend hb h
    have hlt := hcells _ r hr c hc
    omega
  -- From an old cell the way stays among old ones; from a new cell it goes up until it leaves the
  -- new ones.
  have hpath {b c : Nat} (h : Relation.TransGen (s.extend cells).CellOwns b c) :
      (b < s.cells.length → c < s.cells.length ∧ Relation.TransGen s.CellOwns b c) ∧
      (s.cells.length ≤ b → c < s.cells.length ∨ b < c) := by
    induction h with
    | single h => exact ⟨fun hb => ⟨(hold hb h).1, .single (hold hb h).2⟩, fun hb => hnew hb h⟩
    | @tail c d _ h ih =>
      refine ⟨fun hb => ?_, fun hb => ?_⟩
      · obtain ⟨hc, hpath⟩ := ih.1 hb
        exact ⟨(hold hc h).1, hpath.tail (hold hc h).2⟩
      · rcases Nat.lt_or_ge c s.cells.length with hc | hc
        · exact .inl (hold hc h).1
        · have hlt := ih.2 hb
          have hlt' := hnew hc h
          omega
  intro c hc
  rcases Nat.lt_or_ge c s.cells.length with hlt | hle
  · exact hs c ((hpath hc).1 hlt).2
  · have hlt := (hpath hc).2 hle
    exact hlt.elim (fun hlt => Nat.not_lt.2 hle hlt) (Nat.lt_irrefl c)

/-- What owns itself does so by way of a registry. -/
theorem Grounded.loop (hs : s.Grounded) {k : Hold} (hk : Relation.TransGen s.Owns k k) :
    ∃ g, Relation.TransGen s.Owns (.registry g) (.registry g) := by
  cases k with
  | registry g => exact ⟨g, hk⟩
  | cell b =>
    -- Either there is a registry on the way, or it leads through cells alone.
    have hpath {h : Hold} (hp : Relation.TransGen s.Owns (.cell b) h) :
        (∃ g, Relation.TransGen s.Owns (.cell b) (.registry g) ∧
          Relation.ReflTransGen s.Owns (.registry g) h) ∨
        ∃ c, h = .cell c ∧ Relation.TransGen s.CellOwns b c := by
      induction hp with
      | @single h hh =>
        cases h with
        | cell c => exact .inr ⟨c, rfl, .single hh⟩
        | registry g => exact .inl ⟨g, .single hh, .refl⟩
      | @tail h h' hp hh ih =>
        rcases ih with ⟨g, hg, hrest⟩ | ⟨c, rfl, hc⟩
        · exact .inl ⟨g, hg, hrest.tail hh⟩
        · cases h' with
          | cell d => exact .inr ⟨d, rfl, hc.tail hh⟩
          | registry g => exact .inl ⟨g, hp.tail hh, .refl⟩
    rcases hpath hk with ⟨g, hg, hrest⟩ | ⟨c, heq, hc⟩
    · exact ⟨g, .trans_right hrest hg⟩
    · obtain rfl := Hold.cell.inj heq
      exact absurd hc (hs b)

end Store

end Descent
