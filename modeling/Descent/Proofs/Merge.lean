import Descent.Failure

namespace Descent

section

variable {α : Type} [DecidableEq α]

theorem pool_append (xs ys zs : List α) : pool xs (ys ++ zs) = pool (pool xs ys) zs := by
  induction ys generalizing xs with
  | nil => rfl
  | cons y ys ih => exact ih _

theorem pool_assoc (xs ys zs : List α) : pool (pool xs ys) zs = pool xs (pool ys zs) := by
  induction zs generalizing ys with
  | nil => rfl
  | cons z zs ih =>
    have hz : pool xs (if z ∈ ys then ys else ys ++ [z]) =
        if z ∈ pool xs ys then pool xs ys else pool xs ys ++ [z] := by
      by_cases h : z ∈ ys
      · have hp : z ∈ pool xs ys := mem_pool.2 (.inr h)
        rw [if_pos h, if_pos hp]
      · rw [if_neg h, pool_append]
        rfl
    calc pool (pool xs ys) (z :: zs)
        = pool (pool xs (if z ∈ ys then ys else ys ++ [z])) zs := by rw [hz]; rfl
      _ = pool xs (pool (if z ∈ ys then ys else ys ++ [z]) zs) := ih _

theorem pool_eq_nil_iff {xs ys : List α} : pool xs ys = [] ↔ xs = [] ∧ ys = [] := by
  simp only [List.eq_nil_iff_forall_not_mem, mem_pool, not_or, forall_and]

theorem pool_eq_self {xs ys : List α} (h : ∀ y ∈ ys, y ∈ xs) : pool xs ys = xs := by
  induction ys with
  | nil => rfl
  | cons y ys ih =>
    rw [pool, if_pos (h y List.mem_cons_self)]
    exact ih fun z hz => h z (List.mem_cons_of_mem _ hz)

end

namespace Failure

theorem merge_of_lt {f g : Failure} (h : f.offset < g.offset) : f.merge g = g := if_pos h

theorem merge_of_gt {f g : Failure} (h : g.offset < f.offset) : f.merge g = f := by
  rw [merge, if_neg (by omega), if_neg (by omega)]

theorem merge_of_eq {f g : Failure} (h : f.offset = g.offset) :
    f.merge g = ⟨f.offset, pool f.expected g.expected⟩ := by
  rw [merge, if_neg (by omega), if_pos h.symm]

theorem merge_assoc (f g h : Failure) : (f.merge g).merge h = f.merge (g.merge h) := by
  rcases Nat.lt_trichotomy f.offset g.offset with hfg | hfg | hfg
  · have hg : f.offset < (g.merge h).offset := by
      rw [offset_merge]
      omega
    rw [merge_of_lt hfg, merge_of_lt hg]
  · rcases Nat.lt_trichotomy g.offset h.offset with hgh | hgh | hgh
    · have hm : (f.merge g).offset < h.offset := by
        rw [offset_merge]
        omega
      rw [merge_of_lt hm, merge_of_lt hgh, merge_of_lt (hfg ▸ hgh)]
    · have hl : (f.merge g).offset = h.offset := by
        rw [offset_merge]
        omega
      have hr : f.offset = (g.merge h).offset := by
        rw [offset_merge]
        omega
      rw [merge_of_eq hl, merge_of_eq hr, merge_of_eq hfg, merge_of_eq hgh, pool_assoc]
    · have hm : h.offset < (f.merge g).offset := by
        rw [offset_merge]
        omega
      rw [merge_of_gt hm, merge_of_gt hgh]
  · rw [merge_of_gt hfg]
    rcases Nat.lt_or_ge g.offset h.offset with hgh | hgh
    · rw [merge_of_lt hgh]
    · have hm : (g.merge h).offset < f.offset := by
        rw [offset_merge]
        omega
      rw [merge_of_gt (Nat.lt_of_le_of_lt hgh hfg), merge_of_gt hm]

instance : Std.Associative merge := ⟨merge_assoc⟩

theorem merge_self (f : Failure) : f.merge f = f := by
  rw [merge_of_eq rfl, pool_eq_self fun _ h => h]

/-- What two records come to, of which either may be empty. -/
def join : Option Failure → Option Failure → Option Failure := Option.merge merge

instance : Std.Associative join := inferInstanceAs (Std.Associative (Option.merge merge))

theorem join_assoc (f g h : Option Failure) : join (join f g) h = join f (join g h) :=
  Std.Associative.assoc f g h

theorem join_none_right (f : Option Failure) : join f none = f := Option.merge_none_right

theorem join_none_left (f : Option Failure) : join none f = f := Option.merge_none_left

/-- The record of some failures, in order. -/
def furthest (fs : List Failure) : Option Failure := (fs.map some).foldl join none

theorem foldl_join (f : Option Failure) (fs : List Failure) :
    (fs.map some).foldl join f = join f (furthest fs) := by
  have h := @List.foldl_assoc _ join _ (fs.map some) f none
  rw [join_none_right] at h
  exact h

theorem furthest_cons (f : Failure) (fs : List Failure) :
    furthest (f :: fs) = join (some f) (furthest fs) := foldl_join (some f) fs

theorem furthest_append (fs gs : List Failure) :
    furthest (fs ++ gs) = join (furthest fs) (furthest gs) := by
  rw [furthest, List.map_append, List.foldl_append]
  exact foldl_join (furthest fs) gs

theorem furthest_eq_none {fs : List Failure} (h : furthest fs = none) : fs = [] := by
  cases fs with
  | nil => rfl
  | cons f fs =>
    rw [furthest_cons] at h
    cases hf : furthest fs <;> simp [hf, join] at h

theorem offset_furthest (fs : List Failure) : (furthest fs).map offset = (fs.map offset).max? := by
  induction fs with
  | nil => rfl
  | cons f fs ih =>
    rw [furthest_cons, List.map_cons, List.max?_cons, ← ih]
    cases furthest fs with
    | none => rfl
    | some g => exact congrArg some (offset_merge f g)

theorem mem_merge {f g : Failure} {e : Expected} : e ∈ (f.merge g).expected ↔
    f.offset ≤ g.offset ∧ e ∈ g.expected ∨ g.offset ≤ f.offset ∧ e ∈ f.expected := by
  rcases Nat.lt_trichotomy f.offset g.offset with h | h | h
  · rw [merge_of_lt h]
    simp [Nat.le_of_lt h, Nat.not_le.2 h]
  · rw [merge_of_eq h, mem_pool]
    simp [h, or_comm]
  · rw [merge_of_gt h]
    simp [Nat.le_of_lt h, Nat.not_le.2 h]

/-- The record `g` has nothing to learn from the record `k`. -/
def Covers (g k : Option Failure) : Prop := join g k = g

theorem covers_some {g : Option Failure} {f : Failure} : Covers g (some f) ↔
    ∃ h, g = some h ∧ (f.offset < h.offset ∨ f.offset = h.offset ∧ f.expected ⊆ h.expected) := by
  cases g with
  | none => simp [Covers, join]
  | some h =>
    have hiff : Covers (some h) (some f) ↔ h.merge f = h := Option.some_inj
    rw [hiff]
    constructor
    · intro hmerge
      refine ⟨h, rfl, ?_⟩
      rcases Nat.lt_trichotomy f.offset h.offset with hlt | heq | hgt
      · exact .inl hlt
      · refine .inr ⟨heq, fun e he => ?_⟩
        have hmem : e ∈ (h.merge f).expected := mem_merge.2 (.inl ⟨Nat.le_of_eq heq.symm, he⟩)
        rwa [hmerge] at hmem
      · have hoffset := offset_merge h f
        rw [hmerge] at hoffset
        omega
    · intro hcovers
      obtain ⟨k, hk, hlt | ⟨heq, hsub⟩⟩ := hcovers
      · obtain rfl := Option.some.inj hk
        exact merge_of_gt hlt
      · obtain rfl := Option.some.inj hk
        rw [merge_of_eq heq.symm, pool_eq_self fun e he => hsub he]

theorem Covers.join_left {g k : Option Failure} (h : Covers g k) (l : Option Failure) :
    Covers (join l g) k := by
  rw [Covers, join_assoc, h]

/-- A record loses nothing by what is merged into it. -/
theorem Covers.join_right {g : Option Failure} {f : Failure} (h : Covers g (some f))
    (l : Option Failure) : Covers (join g l) (some f) := by
  obtain ⟨k, rfl, hk⟩ := covers_some.1 h
  cases l with
  | none => exact h
  | some m =>
    refine covers_some.2 ⟨k.merge m, rfl, ?_⟩
    rw [offset_merge]
    by_cases hm : f.offset < m.offset
    · exact .inl (by omega)
    · rcases hk with hlt | ⟨heq, hsub⟩
      · exact .inl (by omega)
      · refine .inr ⟨by omega, fun e he => mem_merge.2 (.inr ⟨by omega, hsub he⟩)⟩

theorem covers_self (g : Option Failure) : Covers g g := by
  cases g with
  | none => rfl
  | some f => exact congrArg some (merge_self f)

theorem covers_join_self (g k : Option Failure) : Covers (join g k) g := by
  cases g with
  | none => exact join_none_right _
  | some f => exact (covers_self (some f)).join_right k

/-- A record of some failures covers each of them. -/
theorem covers_furthest {fs : List Failure} {f : Failure} (h : f ∈ fs) :
    Covers (furthest fs) (some f) := by
  obtain ⟨as, bs, rfl⟩ := List.append_of_mem h
  rw [furthest_append, furthest_cons]
  exact ((covers_self (some f)).join_right _).join_left _

/-- What a record covers may be pooled where it is no further on. -/
theorem Covers.adopt {k : Option Failure} {f g : Failure} (hg : Covers k (some g))
    (hle : f.offset ≤ g.offset) (hf : f.expected = [] ∨ Covers k (some f)) :
    Covers k (some (f.adopt g)) := by
  obtain ⟨h, hk, hgh⟩ := covers_some.1 hg
  refine covers_some.2 ⟨h, hk, ?_⟩
  by_cases hlt : f.offset < h.offset
  · exact .inl hlt
  · have hsame : g.offset = h.offset ∧ g.expected ⊆ h.expected := hgh.resolve_left (by omega)
    have hbefore : f.expected ⊆ h.expected := by
      rcases hf with hnil | hf
      · simp [hnil]
      · obtain ⟨h', hk', hfh⟩ := covers_some.1 hf
        obtain rfl := Option.some.inj (hk.symm.trans hk')
        exact (hfh.resolve_left hlt).2
    have hoffset : (f.adopt g).offset = f.offset := rfl
    refine .inr ⟨by omega, fun e he => ?_⟩
    rcases mem_pool.1 he with he | he
    · exact hbefore he
    · exact hsame.2 he

/-- `g` is as far as any of some failures, and expects what those that got so far do. -/
structure IsFurthest (fs : List Failure) (g : Failure) : Prop where
  le : ∀ f ∈ fs, f.offset ≤ g.offset
  attained : ∃ f ∈ fs, f.offset = g.offset ∧ f.expected ⊆ g.expected
  expected : ∀ e ∈ g.expected, ∃ f ∈ fs, f.offset = g.offset ∧ e ∈ f.expected

theorem isFurthest_of_mem {fs : List Failure} {f : Failure} (hf : f ∈ fs)
    (h : ∀ g ∈ fs, g.offset ≤ f.offset) : IsFurthest fs f :=
  ⟨h, ⟨f, hf, rfl, fun _ he => he⟩, fun _ he => ⟨f, hf, rfl, he⟩⟩

theorem IsFurthest.cons {fs : List Failure} {g : Failure} (h : IsFurthest fs g) (f : Failure) :
    IsFurthest (f :: fs) (f.merge g) := by
  obtain ⟨k, hk, hoffset, hsub⟩ := h.attained
  constructor
  · intro f' hf'
    rw [offset_merge]
    rcases List.mem_cons.1 hf' with rfl | hf'
    · exact Nat.le_max_left _ _
    · exact Nat.le_trans (h.le f' hf') (Nat.le_max_right _ _)
  · rw [offset_merge]
    by_cases hfg : f.offset ≤ g.offset
    · refine ⟨k, List.mem_cons_of_mem _ hk, by omega, ?_⟩
      intro e he
      exact mem_merge.2 (.inl ⟨hfg, hsub he⟩)
    · refine ⟨f, List.mem_cons_self, by omega, ?_⟩
      intro e he
      exact mem_merge.2 (.inr ⟨by omega, he⟩)
  · intro e he
    rw [offset_merge]
    rcases mem_merge.1 he with ⟨hfg, he⟩ | ⟨hgf, he⟩
    · obtain ⟨f', hf', ho, he'⟩ := h.expected e he
      exact ⟨f', List.mem_cons_of_mem _ hf', by omega, he'⟩
    · exact ⟨f, List.mem_cons_self, by omega, he⟩

theorem isFurthest_furthest {fs : List Failure} {g : Failure} (h : furthest fs = some g) :
    IsFurthest fs g := by
  induction fs generalizing g with
  | nil => cases h
  | cons f fs ih =>
    rw [furthest_cons] at h
    cases hfs : furthest fs with
    | none =>
      obtain rfl := furthest_eq_none hfs
      obtain rfl := Option.some.inj h
      refine isFurthest_of_mem List.mem_cons_self fun g hg => ?_
      obtain rfl := List.mem_singleton.1 hg
      exact Nat.le_refl _
    | some k =>
      rw [hfs] at h
      obtain rfl : f.merge k = g := Option.some.inj h
      exact (ih hfs).cons f

theorem nodup_merge {f g : Failure} (hf : f.expected.Nodup) (hg : g.expected.Nodup) :
    (f.merge g).expected.Nodup := by
  unfold merge
  split
  · exact hg
  · split
    · exact nodup_pool hf
    · exact hf

theorem nodup_furthest {fs : List Failure} {g : Failure} (h : furthest fs = some g)
    (hn : ∀ f ∈ fs, f.expected.Nodup) : g.expected.Nodup := by
  induction fs generalizing g with
  | nil => cases h
  | cons f fs ih =>
    rw [furthest_cons] at h
    have hf := hn f List.mem_cons_self
    cases hfs : furthest fs with
    | none =>
      rw [hfs, join_none_right] at h
      exact Option.some.inj h ▸ hf
    | some k =>
      rw [hfs] at h
      have hk := ih hfs fun f' hf' => hn f' (List.mem_cons_of_mem _ hf')
      exact Option.some.inj h ▸ nodup_merge hf hk

end Failure

end Descent
