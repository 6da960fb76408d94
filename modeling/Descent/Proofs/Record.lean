import Descent.Proofs.Account

namespace Descent

namespace Failure

/-- The failures merged one after the other into the first one. -/
def mergeAll : List Failure → Option Failure
  | [] => none
  | f :: fs => some (fs.foldl merge f)

theorem furthest_cons_eq_foldl (f : Failure) (fs : List Failure) :
    furthest (f :: fs) = some (fs.foldl merge f) := by
  induction fs generalizing f with
  | nil => rfl
  | cons g fs ih =>
    have hjoin : furthest (f :: g :: fs) = furthest (f.merge g :: fs) := by
      simp only [furthest_cons, ← join_assoc]
      rfl
    rw [hjoin, ih]
    rfl

theorem furthest_eq_mergeAll (fs : List Failure) : furthest fs = mergeAll fs := by
  cases fs with
  | nil => rfl
  | cons f fs => exact furthest_cons_eq_foldl f fs

/-- The record expects what those failures do that got as far as any. -/
theorem mem_furthest {fs : List Failure} {e : Expected} : (∃ g ∈ furthest fs, e ∈ g.expected) ↔
    ∃ f ∈ fs, some f.offset = (fs.map offset).max? ∧ e ∈ f.expected := by
  rw [← offset_furthest]
  constructor
  · intro h
    obtain ⟨g, hg, he⟩ := h
    obtain ⟨f, hf, hoffset, hef⟩ := (isFurthest_furthest hg).expected e he
    refine ⟨f, hf, ?_, hef⟩
    rw [hg, hoffset]
    rfl
  · intro h
    obtain ⟨f, hf, hoffset, he⟩ := h
    obtain ⟨g, hg, hcovers⟩ := covers_some.1 (covers_furthest hf)
    have hsame : f.offset = g.offset := by simpa [hg] using hoffset
    have hsub : f.expected ⊆ g.expected := by
      rcases hcovers with hlt | ⟨_, hsub⟩
      · omega
      · exact hsub
    exact ⟨g, hg, hsub he⟩

/-- Failures in another order get as far. -/
theorem max?_offset_perm {fs gs : List Failure} (h : gs.Perm fs) :
    (gs.map offset).max? = (fs.map offset).max? := by
  have hperm : (gs.map offset).Perm (fs.map offset) := h.map offset
  cases hmax : (fs.map offset).max? with
  | none =>
    have hnil : fs.map offset = [] := List.max?_eq_none_iff.1 hmax
    rw [hnil] at hperm
    rw [hperm.eq_nil]
    rfl
  | some n =>
    obtain ⟨hmem, hle⟩ := List.max?_eq_some_iff.1 hmax
    have hmem' : n ∈ gs.map offset := hperm.mem_iff.2 hmem
    have hle' : ∀ m ∈ gs.map offset, m ≤ n := fun m hm => hle m (hperm.mem_iff.1 hm)
    exact List.max?_eq_some_iff.2 ⟨hmem', hle'⟩

end Failure

namespace Budget

/-- To take note of some failures is to merge their record into that of the account, and changes
nothing else. -/
theorem foldl_record (b : Budget) (fs : List Failure) :
    fs.foldl record b = { b with furthest := Failure.join b.furthest (Failure.furthest fs) } := by
  induction fs generalizing b with
  | nil =>
    rw [List.foldl_nil, Failure.furthest, List.map_nil, List.foldl_nil, Failure.join_none_right]
  | cons f fs ih =>
    have hrecord : b.record f = { b with furthest := Failure.join b.furthest (some f) } := by
      rw [← furthest_record]
      rfl
    rw [List.foldl_cons, ih, hrecord, Failure.furthest_cons, ← Failure.join_assoc]

theorem foldl_record_fresh (l : Limits) (fs : List Failure) :
    fs.foldl record (fresh l) = { fresh l with furthest := Failure.furthest fs } := by
  rw [foldl_record]
  exact congrArg (fun g => { fresh l with furthest := g }) (Failure.join_none_left _)

/-- A fresh account that takes note of failures, whatever they are, has them merged in order. The
record sits at the greatest offset, and expects what the failures there do, and only they. To note
one of the failures again changes nothing. In another order the failures leave a record at the same
offset with the same expectations. -/
theorem recorded (l : Limits) (fs : List Failure) :
    (fs.foldl record (fresh l)).furthest = Failure.mergeAll fs ∧
    (fs.foldl record (fresh l)).furthest.map Failure.offset = (fs.map Failure.offset).max? ∧
    (∀ e, (∃ g ∈ (fs.foldl record (fresh l)).furthest, e ∈ g.expected) ↔
      ∃ f ∈ fs, some f.offset = (fs.map Failure.offset).max? ∧ e ∈ f.expected) ∧
    (∀ f ∈ fs, (fs.foldl record (fresh l)).record f = fs.foldl record (fresh l)) ∧
    (∀ gs : List Failure, gs.Perm fs →
      (gs.foldl record (fresh l)).furthest.map Failure.offset =
        (fs.foldl record (fresh l)).furthest.map Failure.offset ∧
      ∀ e, (∃ g ∈ (gs.foldl record (fresh l)).furthest, e ∈ g.expected) ↔
        ∃ g ∈ (fs.foldl record (fresh l)).furthest, e ∈ g.expected) ∧
    (∀ f g h : Failure, (f.merge g).merge h = f.merge (g.merge h)) ∧
    ∀ f : Failure, f.merge f = f := by
  simp only [foldl_record_fresh]
  refine ⟨Failure.furthest_eq_mergeAll fs, Failure.offset_furthest fs,
    fun e => Failure.mem_furthest, ?_, ?_, Failure.merge_assoc, Failure.merge_self⟩
  · intro f hf
    have hcovers : Failure.join (Failure.furthest fs) (some f) = Failure.furthest fs :=
      Failure.covers_furthest hf
    have hrecord := furthest_record { fresh l with furthest := Failure.furthest fs } f
    rw [hcovers] at hrecord
    exact Budget.ext rfl rfl rfl hrecord
  · intro gs hperm
    have hmax := Failure.max?_offset_perm hperm
    have hmem (f : Failure) : f ∈ gs ↔ f ∈ fs := hperm.mem_iff
    refine ⟨?_, fun e => ?_⟩
    · rw [Failure.offset_furthest, Failure.offset_furthest, hmax]
    · simp only [Failure.mem_furthest, hmax, hmem]

/-- A failure that is surpassed, and two at one offset of which one repeats itself. -/
theorem recorded_repeated :
    ([⟨2, [.label "a", .label "a"]⟩, ⟨1, [.endOfInput]⟩, ⟨2, [.label "b", .label "a"]⟩].foldl record
      (fresh .standard)).furthest = some ⟨2, [.label "a", .label "a", .label "b"]⟩ ∧
    [⟨2, [.label "b", .label "a"]⟩, ⟨1, [.endOfInput]⟩, ⟨2, [.label "a", .label "a"]⟩].foldl record
      (fresh .standard) = ⟨.standard, 0, 0, some ⟨2, [.label "b", .label "a"]⟩⟩ := by
  have h := recorded .standard [⟨2, [.label "a", .label "a"]⟩, ⟨1, [.endOfInput]⟩,
      ⟨2, [.label "b", .label "a"]⟩]
  exact ⟨h.1, rfl⟩

end Budget

end Descent
