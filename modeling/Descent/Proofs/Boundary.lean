import Descent.Pattern
import Descent.Position

namespace Descent

namespace Text

/-- `n` bytes into the text, a character ends or begins. -/
def IsBoundary (cs : List Char) (n : Nat) : Prop := ∃ l r, cs = l ++ r ∧ byteLength l = n

theorem IsBoundary.le {cs : List Char} {n : Nat} (h : IsBoundary cs n) : n ≤ byteLength cs := by
  obtain ⟨l, r, rfl, rfl⟩ := h
  rw [byteLength_append]
  omega

theorem isBoundary_zero (cs : List Char) : IsBoundary cs 0 := ⟨[], cs, rfl, rfl⟩

theorem isBoundary_byteLength (cs : List Char) : IsBoundary cs (byteLength cs) :=
  ⟨cs, [], by simp, rfl⟩

/-- Two ways to cut a text after the same number of bytes are the same. -/
theorem append_inj_byteLength {l l' r r' : List Char} (h : l ++ r = l' ++ r')
    (hn : byteLength l = byteLength l') : l = l' ∧ r = r' := by
  have hl := splitAtByte_byteLength l r
  rw [h, hn, splitAtByte_byteLength] at hl
  exact ⟨(congrArg Prod.fst hl).symm, (congrArg Prod.snd hl).symm⟩

theorem byteLength_pos {cs : List Char} (h : cs ≠ []) : 0 < byteLength cs := by
  cases cs with
  | nil => exact absurd rfl h
  | cons c cs =>
    have := Char.utf8Size_pos c
    rw [byteLength_cons]
    omega

/-- Two boundaries in order cut a text in three. -/
theorem IsBoundary.cut {cs : List Char} {a b : Nat} (ha : IsBoundary cs a) (hb : IsBoundary cs b)
    (hab : a ≤ b) : ∃ l m r, cs = l ++ m ++ r ∧ byteLength l = a ∧ a+byteLength m = b := by
  obtain ⟨l, r, hl, rfl⟩ := ha
  obtain ⟨k, t, hk, rfl⟩ := hb
  rcases List.append_eq_append_iff.1 (hl.symm.trans hk) with ⟨m, rfl, rfl⟩ | ⟨m, rfl, rfl⟩
  · exact ⟨l, m, t, hk, rfl, (byteLength_append l m).symm⟩
  · -- The second head is no longer than the first, so nothing lies between them.
    rw [byteLength_append] at hab
    have hm : m = [] := Classical.byContradiction fun h => by
      have := byteLength_pos h
      omega
    subst hm
    exact ⟨k, [], r, by simpa using hl, by simp, by simp⟩

theorem slice?_append (l m r : List Char) :
    slice? (byteLength l) (byteLength l+byteLength m) (l ++ m ++ r) = some m := by
  simp [slice?, splitAtByte_byteLength, List.append_assoc]

theorem slice?_isSome_iff {a b : Nat} {cs : List Char} :
    (slice? a b cs).isSome ↔ a ≤ b ∧ IsBoundary cs a ∧ IsBoundary cs b := by
  constructor
  · intro h
    simp only [slice?] at h
    split at h
    · rename_i hc
      obtain ⟨ha, hb⟩ := hc
      have hcut := splitAtByte_append a cs
      have hin := splitAtByte_append (b-a) (splitAtByte a cs).2
      refine ⟨by omega, ⟨_, _, hcut.symm, ha⟩,
        (splitAtByte a cs).1 ++ (splitAtByte (b-a) (splitAtByte a cs).2).1,
        (splitAtByte (b-a) (splitAtByte a cs).2).2, ?_, ?_⟩
      · rw [List.append_assoc, hin, hcut]
      · rw [byteLength_append, ha, hb]
    · simp at h
  · rintro ⟨hab, ha, hb⟩
    obtain ⟨l, m, r, rfl, rfl, rfl⟩ := ha.cut hb hab
    rw [slice?_append]
    rfl

end Text

namespace Cursor

theorem isBoundary (c : Cursor) : Text.IsBoundary c.source c.offset :=
  ⟨c.before.reverse, c.after, rfl, by rw [c.offset_eq, Text.byteLength_reverse]⟩

theorem offset_le (c : Cursor) : c.offset ≤ Text.byteLength c.source := c.isBoundary.le

/-- A cursor is where its source and its offset say. -/
theorem eq_of_offset {c d : Cursor} (hs : c.source = d.source) (ho : c.offset = d.offset) :
    c = d := by
  rw [c.offset_eq, d.offset_eq] at ho
  obtain ⟨hb, ha⟩ := Text.append_inj_byteLength hs (by simpa using ho)
  ext1
  · exact List.reverse_inj.1 hb
  · exact ha
  · rw [c.offset_eq, d.offset_eq, ho]

@[simp] theorem start_offset (source : List Char) : (start source).offset = 0 := rfl

@[simp] theorem past_offset (c : Cursor) (taken left : List Char) :
    (c.past taken left).offset = c.offset+Text.byteLength taken := rfl

/-- A boundary of a text is where some cursor stands. -/
theorem advance_start_offset {source : List Char} {n : Nat} (h : Text.IsBoundary source n) :
    ((start source).advance n).offset = n := by
  obtain ⟨l, r, rfl, rfl⟩ := h
  simp [advance, start, Text.splitAtByte_byteLength]

theorem slice?_after (c : Cursor) :
    Text.slice? c.offset (Text.byteLength c.source) c.source = some c.after := by
  have h := Text.slice?_append c.before.reverse c.after []
  rw [List.append_nil] at h
  rw [c.offset_eq, source, Text.byteLength_append, ← Text.byteLength_reverse c.before]
  exact h

/-- `d` stands in the source of `c`, at the same place or behind it. -/
def Reaches (c d : Cursor) : Prop := d.source = c.source ∧ c.offset ≤ d.offset

theorem Reaches.refl (c : Cursor) : c.Reaches c := ⟨rfl, Nat.le_refl _⟩

theorem Reaches.trans {c d e : Cursor} (h : c.Reaches d) (k : d.Reaches e) : c.Reaches e :=
  ⟨k.1.trans h.1, Nat.le_trans h.2 k.2⟩

theorem reaches_forward (c : Cursor) (n : Nat) : c.Reaches (c.forward n) :=
  ⟨by simp, Nat.le_add_right _ _⟩

/-- The text between two cursors, cut out of their source. -/
theorem Reaches.slice? {c d : Cursor} (h : c.Reaches d) :
    ∃ taken, Text.slice? c.offset d.offset c.source = some taken ∧ c.after = taken ++ d.after := by
  obtain ⟨l, m, r, hs, hl, hm⟩ := c.isBoundary.cut (h.1 ▸ d.isBoundary) h.2
  refine ⟨m, by rw [hs, ← hm, ← hl, Text.slice?_append], ?_⟩
  have hc : c.before.reverse ++ c.after = l ++ (m ++ r) := by
    rw [← List.append_assoc]; exact hs
  have hd : d.before.reverse ++ d.after = l ++ m ++ r := by rw [← hs, ← h.1]; rfl
  have hca := (Text.append_inj_byteLength hc (by
    rw [Text.byteLength_reverse, ← c.offset_eq, hl])).2
  have hda := (Text.append_inj_byteLength hd (by
    rw [Text.byteLength_reverse, ← d.offset_eq, Text.byteLength_append, hl, hm])).2
  rw [hca, hda]

theorem slice?_forward (c : Cursor) (n : Nat) :
    Text.slice? c.offset (c.offset+Text.byteLength (c.after.take n)) c.source =
      some (c.after.take n) := by
  have h := Text.slice?_append c.before.reverse (c.after.take n) (c.after.drop n)
  rw [List.append_assoc, List.take_append_drop, Text.byteLength_reverse, ← c.offset_eq] at h
  exact h

theorem atEnd_iff (c : Cursor) : c.atEnd ↔ c.offset = Text.byteLength c.source := by
  have h : Text.byteLength c.source = c.offset+Text.byteLength c.after := by
    rw [c.offset_eq]; simp [source]
  rw [h, atEnd, List.isEmpty_iff]
  constructor
  · rintro ha
    simp [ha]
  · intro ho
    refine Classical.byContradiction fun ha => ?_
    have := Text.byteLength_pos ha
    omega

/-- The offset at which the line of the cursor begins. -/
def lineStart (c : Cursor) : Nat := Text.byteLength (c.before.dropWhile (· ≠ '\n'))

/-- The column counts the characters between the start of the line and the cursor. -/
theorem slice?_lineStart (c : Cursor) :
    ∃ line, Text.slice? c.lineStart c.offset c.source = some line ∧
      '\n' ∉ line ∧ c.position.column = line.length+1 := by
  refine ⟨(c.before.takeWhile (· ≠ '\n')).reverse, ?_, ?_, ?_⟩
  · have h := Text.slice?_append (c.before.dropWhile (· ≠ '\n')).reverse
      (c.before.takeWhile (· ≠ '\n')).reverse c.after
    rw [← List.reverse_append, List.takeWhile_append_dropWhile, Text.byteLength_reverse,
      Text.byteLength_reverse, Nat.add_comm, ← Text.byteLength_append,
      List.takeWhile_append_dropWhile, ← c.offset_eq] at h
    exact h
  · intro hn
    have := List.all_takeWhile (p := fun x => decide (x ≠ '\n')) (l := c.before)
    simpa using List.all_eq_true.1 this _ (List.mem_reverse.1 hn)
  · simp [position]

end Cursor

end Descent
