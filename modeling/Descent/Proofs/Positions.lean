import Descent.Proofs.Boundary

namespace Descent

namespace Text

/-- The bytes of the text in its UTF-8 form. -/
def bytes (cs : List Char) : List UInt8 := cs.flatMap String.utf8EncodeChar

theorem bytes_append (as bs : List Char) : bytes (as ++ bs) = bytes as ++ bytes bs :=
  List.flatMap_append

theorem length_bytes (cs : List Char) : (bytes cs).length = byteLength cs := by
  induction cs with
  | nil => rfl
  | cons c cs ih =>
    have hcons : bytes (c :: cs) = String.utf8EncodeChar c ++ bytes cs := rfl
    rw [hcons, List.length_append, ih, String.length_utf8EncodeChar, byteLength_cons]

theorem take_bytes (as bs : List Char) : (bytes (as ++ bs)).take (byteLength as) = bytes as := by
  rw [bytes_append, ← length_bytes, List.take_left]

theorem splitAtByte_past_end {cs : List Char} {n : Nat} (h : byteLength cs ≤ n) :
    splitAtByte n cs = (cs, []) := by
  induction cs generalizing n with
  | nil => rfl
  | cons c cs ih =>
    rw [byteLength_cons] at h
    rw [splitAtByte, if_pos (by omega), ih (by omega)]

/-- The byte of a line feed. No other character has it among its bytes. -/
def newline : UInt8 := 10

theorem utf8EncodeChar_newline : String.utf8EncodeChar '\n' = [newline] := rfl

theorem newline_not_mem {c : Char} (h : c ≠ '\n') : newline ∉ String.utf8EncodeChar c := by
  have hval : c.val.toNat ≠ 10 := by
    intro hval
    exact h (Char.ext (UInt32.toNat_inj.1 hval))
  have hbyte {v : Nat} (hv : v % 256 ≠ 10) : newline ≠ UInt8.ofNat v := by
    intro heq
    have hmod := congrArg UInt8.toNat heq
    rw [UInt8.toNat_ofNat'] at hmod
    exact hv hmod.symm
  unfold String.utf8EncodeChar
  dsimp only
  -- A wider character has only bytes above those of the ASCII characters.
  split
  · simpa only [List.mem_singleton] using hbyte (by omega)
  · split
    · simp only [List.mem_cons, List.not_mem_nil, or_false, not_or]
      exact ⟨hbyte (by omega), hbyte (by omega)⟩
    · split
      · simp only [List.mem_cons, List.not_mem_nil, or_false, not_or]
        exact ⟨hbyte (by omega), hbyte (by omega), hbyte (by omega)⟩
      · simp only [List.mem_cons, List.not_mem_nil, or_false, not_or]
        exact ⟨hbyte (by omega), hbyte (by omega), hbyte (by omega), hbyte (by omega)⟩

theorem count_newline (cs : List Char) : (bytes cs).count newline = cs.count '\n' := by
  induction cs with
  | nil => rfl
  | cons c cs ih =>
    have hcons : bytes (c :: cs) = String.utf8EncodeChar c ++ bytes cs := rfl
    rw [hcons, List.count_append, ih]
    by_cases hc : c = '\n'
    · rw [hc, utf8EncodeChar_newline, List.count_cons_self, List.count_cons_self,
        List.count_nil, Nat.zero_add, Nat.add_comm]
    · rw [List.count_eq_zero.2 (newline_not_mem hc), List.count_cons_of_ne hc, Nat.zero_add]

/-- Where the byte occurs last. -/
def lastIndex? (b : UInt8) : List UInt8 → Option Nat
  | [] => none
  | a :: as =>
    match lastIndex? b as with
    | some i => some (i+1)
    | none => if a = b then some 0 else none

theorem lastIndex?_eq_none {b : UInt8} {bs : List UInt8} (h : b ∉ bs) : lastIndex? b bs = none := by
  induction bs with
  | nil => rfl
  | cons a bs ih =>
    have hne : a ≠ b := (List.ne_of_not_mem_cons h).symm
    have htail : b ∉ bs := List.not_mem_of_not_mem_cons h
    simp only [lastIndex?, ih htail, if_neg hne]

theorem lastIndex?_append_of_not_mem {b : UInt8} {bs : List UInt8} (h : b ∉ bs) (as : List UInt8) :
    lastIndex? b (as ++ bs) = lastIndex? b as := by
  induction as with
  | nil => exact lastIndex?_eq_none h
  | cons a as ih => simp only [List.cons_append, lastIndex?, ih]

theorem lastIndex?_append_self (b : UInt8) (as : List UInt8) :
    lastIndex? b (as ++ [b]) = some as.length := by
  induction as with
  | nil => rw [List.nil_append, lastIndex?, lastIndex?, if_pos rfl, List.length_nil]
  | cons a as ih => rw [List.cons_append, lastIndex?, ih, List.length_cons]

/-- Behind the last line feed begins the line. -/
theorem lineStart_eq (before : List Char) :
    (lastIndex? newline (bytes before.reverse)).elim 0 (· + 1) =
    byteLength (before.dropWhile (· ≠ '\n')) := by
  induction before with
  | nil => rfl
  | cons c cs ih =>
    have hlast : bytes (c :: cs).reverse = bytes cs.reverse ++ String.utf8EncodeChar c := by
      rw [List.reverse_cons, bytes_append]
      exact congrArg _ (List.append_nil _)
    rw [hlast]
    by_cases hc : c = '\n'
    · have hwidth : ('\n' : Char).utf8Size = 1 := rfl
      rw [hc, utf8EncodeChar_newline, lastIndex?_append_self, length_bytes, byteLength_reverse,
        List.dropWhile_cons_of_neg (by simp), byteLength_cons, hwidth, Nat.add_comm]
      rfl
    · rw [lastIndex?_append_of_not_mem (newline_not_mem hc), ih,
        List.dropWhile_cons_of_pos (by simp [hc])]

end Text

namespace Position

/-- Where a text begins. -/
def first : Position := ⟨0, 1, 1⟩

/-- The position behind a character. A return is a character like others. -/
def next (p : Position) (c : Char) : Position where
  offset := p.offset+c.utf8Size
  line := if c = '\n' then p.line+1 else p.line
  column := if c = '\n' then 1 else p.column+1

/-- The position of a byte offset from the bytes before it: by the number of line feeds, and the
characters behind the last one. There is none for an offset inside a character. -/
def scan? (source : List Char) (offset : Nat) : Option Position :=
  let offset := min offset (Text.byteLength source)
  let before := (Text.bytes source).take offset
  let lineStart := (Text.lastIndex? Text.newline before).elim 0 (· + 1)
  (Text.slice? lineStart offset source).map fun line =>
    ⟨offset, before.count Text.newline+1, line.length+1⟩

/-- In the order of reading: on an earlier line, or further left on the same line. -/
def Before (p q : Position) : Prop := p.line < q.line ∨ p.line = q.line ∧ p.column < q.column

theorem Before.trans {p q r : Position} (h : p.Before q) (k : q.Before r) : p.Before r := by
  unfold Before at *
  omega

theorem before_next (p : Position) (c : Char) : p.Before (p.next c) := by
  unfold Before next
  split <;> simp

/-- A walk goes forward. -/
theorem before_walk (p : Position) {cs : List Char} (h : cs ≠ []) : p.Before (cs.foldl next p) := by
  induction cs generalizing p with
  | nil => exact absurd rfl h
  | cons c cs ih =>
    rw [List.foldl_cons]
    by_cases hcs : cs = []
    · rw [hcs]
      exact before_next p c
    · exact (before_next p c).trans (ih (p.next c) hcs)

end Position

namespace Cursor

theorem advance_start_append (l r : List Char) :
    (start (l ++ r)).advance (Text.byteLength l) = (start (l ++ r)).past l r := by
  have hsplit : Text.splitAtByte (Text.byteLength l) (start (l ++ r)).after = (l, r) :=
    Text.splitAtByte_byteLength l r
  rw [advance, hsplit]

theorem position_start (source : List Char) : (start source).position = .first := rfl

theorem position_past_singleton (c : Cursor) (ch : Char) (left : List Char) :
    (c.past [ch] left).position = c.position.next ch := by
  by_cases hch : ch = '\n'
  · simp [past, position, Position.next, hch]
  · simp [past, position, Position.next, hch]

/-- A walk through the text behind the cursor arrives at the position there. -/
theorem position_past (c : Cursor) (taken left : List Char) :
    (c.past taken left).position = taken.foldl Position.next c.position := by
  induction taken generalizing c with
  | nil => rfl
  | cons ch taken ih =>
    have hstep : c.past (ch :: taken) left = (c.past [ch] (taken ++ left)).past taken left := by
      ext1
      · simp [past]
      · rfl
      · simp [past, Nat.add_assoc]
    rw [hstep, ih, position_past_singleton, List.foldl_cons]

/-- The bytes tell the position of a cursor. -/
theorem scan?_offset (c : Cursor) : Position.scan? c.source c.offset = some c.position := by
  have hoffset : c.offset = Text.byteLength c.before.reverse := by
    rw [c.offset_eq, Text.byteLength_reverse]
  have hbefore : (Text.bytes c.source).take c.offset = Text.bytes c.before.reverse := by
    rw [hoffset]
    exact Text.take_bytes _ _
  obtain ⟨line, hline, _, hcolumn⟩ := c.slice?_lineStart
  unfold Position.scan?
  simp only [Nat.min_eq_left c.offset_le, hbefore, Text.lineStart_eq, Text.count_newline,
    List.count_reverse]
  rw [lineStart] at hline
  rw [hline, Option.map_some, ← hcolumn]
  rfl

end Cursor

namespace Position

theorem locate_walk (l r : List Char) :
    locate (l ++ r) (Text.byteLength l) = l.foldl next first := by
  rw [locate, Cursor.advance_start_append, Cursor.position_past, Cursor.position_start]

theorem locate_past_end {source : List Char} {n : Nat} (h : Text.byteLength source ≤ n) :
    locate source n = locate source (Text.byteLength source) := by
  have hsplit {n : Nat} (h : Text.byteLength source ≤ n) : (Cursor.start source).advance n =
      (Cursor.start source).past source [] := by
    have hall : Text.splitAtByte n (Cursor.start source).after = (source, []) :=
      Text.splitAtByte_past_end h
    rw [Cursor.advance, hall]
  rw [locate, locate, hsplit h, hsplit (Nat.le_refl _)]

/-- At a boundary the scans of the bytes say what `locate` does. -/
theorem scan?_boundary {source : List Char} {n : Nat} (h : Text.IsBoundary source n) :
    scan? source n = some (locate source n) := by
  have hscan := ((Cursor.start source).advance n).scan?_offset
  rwa [Cursor.source_advance, Cursor.source_start, Cursor.advance_start_offset h] at hscan

theorem scan?_past_end {source : List Char} {n : Nat} (h : Text.byteLength source ≤ n) :
    scan? source n = scan? source (Text.byteLength source) := by
  unfold scan?
  rw [Nat.min_eq_right h, Nat.min_self]

theorem locate_before {source : List Char} {n m : Nat} (hn : Text.IsBoundary source n)
    (hm : Text.IsBoundary source m) (h : n < m) : (locate source n).Before (locate source m) := by
  obtain ⟨l, k, r, rfl, rfl, rfl⟩ := hn.cut hm (Nat.le_of_lt h)
  have hk : k ≠ [] := by
    intro hnil
    simp [hnil] at h
  have hfirst : locate (l ++ k ++ r) (Text.byteLength l) = l.foldl next first := by
    rw [List.append_assoc, locate_walk]
  have hsecond : locate (l ++ k ++ r) (Text.byteLength l+Text.byteLength k) =
      k.foldl next (l.foldl next first) := by
    rw [← Text.byteLength_append, locate_walk, List.foldl_append]
  rw [hfirst, hsecond]
  exact before_walk _ hk

/-- The position of a boundary is where a walk through the text before it arrives, and what the
bytes before it tell. Positions come in the order of the boundaries, so that line and column tell
boundaries apart. Past the end all is at the end. -/
theorem locate_faithful (source : List Char) :
    (∀ l r, source = l ++ r → locate source (Text.byteLength l) = l.foldl next first) ∧
    (∀ n, Text.IsBoundary source n → scan? source n = some (locate source n)) ∧
    (∀ n m, Text.IsBoundary source n → Text.IsBoundary source m → n < m →
      (locate source n).Before (locate source m)) ∧
    (∀ n m, Text.IsBoundary source n → Text.IsBoundary source m →
      (locate source n).line = (locate source m).line →
      (locate source n).column = (locate source m).column → n = m) ∧
    ∀ n, Text.byteLength source ≤ n →
      locate source n = locate source (Text.byteLength source) ∧
        scan? source n = some (locate source n) := by
  refine ⟨?_, fun n hn => scan?_boundary hn, fun n m hn hm h => locate_before hn hm h, ?_, ?_⟩
  · intro l r hsource
    rw [hsource, locate_walk]
  · intro n m hn hm hline hcolumn
    rcases Nat.lt_trichotomy n m with h | h | h
    · have hbefore := locate_before hn hm h
      unfold Before at hbefore
      omega
    · exact h
    · have hbefore := locate_before hm hn h
      unfold Before at hbefore
      omega
  · intro n hn
    have hend := locate_past_end hn
    refine ⟨hend, ?_⟩
    rw [scan?_past_end hn, hend]
    exact scan?_boundary (Text.isBoundary_byteLength source)

/-- Before and behind the line feed of a line end of two characters, behind a wide character, and
past the end. -/
theorem locate_faithful_returns :
    locate "é\r\n\nß".toList 3 = ⟨3, 1, 3⟩ ∧ locate "é\r\n\nß".toList 4 = ⟨4, 2, 1⟩ ∧
    (locate "é\r\n\nß".toList 3).Before (locate "é\r\n\nß".toList 4) ∧
    scan? "é\r\n\nß".toList 9 = some ⟨7, 3, 2⟩ := by
  obtain ⟨hwalk, _, hbefore, _, hend⟩ := locate_faithful "é\r\n\nß".toList
  refine ⟨hwalk "é\r".toList "\n\nß".toList rfl, hwalk "é\r\n".toList "\nß".toList rfl, ?_,
    (hend 9 (by decide)).2⟩
  exact hbefore 3 4 ⟨"é\r".toList, "\n\nß".toList, rfl, rfl⟩
    ⟨"é\r\n".toList, "\nß".toList, rfl, rfl⟩ (by decide)

end Position

end Descent
