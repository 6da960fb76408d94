import Descent.CommandLine.Report
import Descent.Proofs.Offsets
import Descent.Proofs.Positions
import Descent.Proofs.Stylesheet.Soundness

namespace Descent

namespace Text

/-- The text of a line without a return at its end. -/
def withoutReturn (cs : List Char) : List Char :=
  if cs.getLast? = some '\r' then cs.dropLast else cs

theorem withoutReturn_cases (cs : List Char) :
    cs = withoutReturn cs ++ ['\r'] ∨ withoutReturn cs = cs ∧ cs.getLast? ≠ some '\r' := by
  by_cases h : cs.getLast? = some '\r'
  · obtain ⟨w, rfl⟩ := List.getLast?_eq_some_iff.1 h
    left
    simp [withoutReturn]
  · right
    exact ⟨if_neg h, h⟩

theorem withoutReturn_cons (c : Char) {w : List Char} (h : w ≠ []) :
    withoutReturn (c :: w) = c :: withoutReturn w := by
  obtain ⟨d, w, rfl⟩ := List.exists_cons_of_ne_nil h
  simp only [withoutReturn, List.getLast?_cons_cons, List.dropLast_cons_cons]
  split <;> rfl

/-- A character that is no end of a line is the first of the first line. -/
theorem lines_cons {c : Char} {cs : List Char} (hc : c ≠ '\n')
    (hr : c = '\r' → cs.head? ≠ some '\n') : lines (c :: cs) = match lines cs with
    | [] => [[c]]
    | l :: ls => (c :: l) :: ls := by
  have hreturn (as : List Char) (h : c = '\r') : cs ≠ '\n' :: as := by
    intro has
    exact hr h (by rw [has, List.head?_cons])
  conv_lhs => unfold lines
  split
  case h_1 heq => cases heq
  case h_2 heq => exact absurd (List.cons.inj heq).1 hc
  case h_3 heq => exact absurd (List.cons.inj heq).2 (hreturn _ (List.cons.inj heq).1)
  case h_4 heq =>
    cases heq
    rfl

/-- A line with its end in front of a text is one line more. -/
theorem lines_newline {w : List Char} (h : '\n' ∉ w) (cs : List Char) :
    lines (w ++ '\n' :: cs) = withoutReturn w :: lines cs := by
  induction w with
  | nil => rfl
  | cons c w ih =>
    have hc : c ≠ '\n' := (List.ne_of_not_mem_cons h).symm
    have hw : '\n' ∉ w := List.not_mem_of_not_mem_cons h
    have hrest := ih hw
    cases w with
    | nil =>
      by_cases hr : c = '\r'
      · rw [hr]
        rfl
      · rw [List.cons_append, lines_cons hc fun hreturn => absurd hreturn hr, hrest]
        simp [withoutReturn, hr]
    | cons d w =>
      have hd : d ≠ '\n' := (List.ne_of_not_mem_cons hw).symm
      rw [List.cons_append, lines_cons hc (by simp [hd]), hrest,
        withoutReturn_cons c (List.cons_ne_nil d w)]

theorem lines_of_not_mem {w : List Char} (h : '\n' ∉ w) (hw : w ≠ []) : lines w = [w] := by
  induction w with
  | nil => exact absurd rfl hw
  | cons c w ih =>
    have hc : c ≠ '\n' := (List.ne_of_not_mem_cons h).symm
    have hw : '\n' ∉ w := List.not_mem_of_not_mem_cons h
    cases w with
    | nil => rw [lines_cons hc (by simp), lines]
    | cons d w =>
      have hd : d ≠ '\n' := (List.ne_of_not_mem_cons hw).symm
      rw [lines_cons hc (by simp [hd]), ih hw (List.cons_ne_nil d w)]

/-- A text is empty, or begins with a line that ends, or is a line without an end. -/
theorem lines_cases (cs : List Char) : cs = [] ∨
    (∃ w rest, '\n' ∉ w ∧ cs = w ++ '\n' :: rest ∧ lines cs = withoutReturn w :: lines rest) ∨
    '\n' ∉ cs ∧ cs ≠ [] ∧ lines cs = [cs] := by
  by_cases hnil : cs = []
  · exact .inl hnil
  right
  by_cases hmem : '\n' ∈ cs
  · obtain ⟨w, rest, rfl, hw⟩ := List.eq_append_cons_of_mem hmem
    exact .inl ⟨w, rest, hw, rfl, lines_newline hw rest⟩
  · exact .inr ⟨hmem, hnil, lines_of_not_mem hmem hnil⟩

/-- A text that ends where a line does, if it is not empty. -/
inductive WholeLines : List Char → Prop
  | nil : WholeLines []
  | cons {w cs : List Char} (hw : '\n' ∉ w) (h : WholeLines cs) : WholeLines (w ++ '\n' :: cs)

/-- Before any place of a text are whole lines, and the start of a line. -/
theorem exists_wholeLines (cs : List Char) : ∃ a k, cs = a ++ k ∧ WholeLines a ∧ '\n' ∉ k := by
  induction cs with
  | nil => exact ⟨[], [], rfl, .nil, List.not_mem_nil⟩
  | cons c cs ih =>
    obtain ⟨a, k, rfl, ha, hk⟩ := ih
    by_cases hc : c = '\n'
    · exact ⟨'\n' :: a, k, by rw [hc, List.cons_append], .cons List.not_mem_nil ha, hk⟩
    · have hcons {w : List Char} (hw : '\n' ∉ w) : '\n' ∉ c :: w := by
        simp [hw, Ne.symm hc]
      cases ha with
      | nil => exact ⟨[], c :: k, rfl, .nil, hcons hk⟩
      | @cons w a hw ha => exact ⟨c :: w ++ '\n' :: a, k, by simp, .cons (hcons hw) ha, hk⟩

theorem WholeLines.eq_nil_or {cs : List Char} (h : WholeLines cs) :
    cs = [] ∨ ∃ as, cs = as ++ ['\n'] := by
  induction h with
  | nil => exact .inl rfl
  | @cons w cs _ _ ih =>
    right
    rcases ih with rfl | ⟨as, rfl⟩
    · exact ⟨w, rfl⟩
    · exact ⟨w ++ '\n' :: as, by simp⟩

theorem WholeLines.lines_append {cs : List Char} (h : WholeLines cs) (bs : List Char) :
    lines (cs ++ bs) = lines cs ++ lines bs := by
  induction h with
  | nil => rfl
  | @cons w cs hw _ ih =>
    rw [List.append_assoc, List.cons_append, lines_newline hw, lines_newline hw, ih,
      List.cons_append]

theorem WholeLines.length_lines {cs : List Char} (h : WholeLines cs) :
    (lines cs).length = cs.count '\n' := by
  induction h with
  | nil => rfl
  | @cons w cs hw _ ih =>
    rw [lines_newline hw, List.length_cons, ih, List.count_append, List.count_cons_self,
      List.count_eq_zero.2 hw, Nat.zero_add]

/-- A line of a text by its own characters, between whole lines and what follows behind its end.
Only the last line may have no end. -/
structure IsLine (text before shown ending after : List Char) : Prop where
  text_eq : text = before ++ (shown ++ (ending ++ after))
  before_whole : WholeLines before
  line_feed : '\n' ∉ shown
  ends : ending = ['\n'] ∧ shown.getLast? ≠ some '\r' ∨ ending = ['\r', '\n'] ∨
    ending = [] ∧ after = [] ∧ shown ≠ []

/-- The first line of the rest of a text is a line of the text. -/
theorem WholeLines.isLine {before rest shown : List Char} (hbefore : WholeLines before)
    (h : (lines rest)[0]? = some shown) :
    ∃ ending after, IsLine (before ++ rest) before shown ending after := by
  rcases lines_cases rest with rfl | ⟨w, cs, hw, rfl, hlines⟩ | ⟨hmem, hne, hlines⟩
  · cases h
  · rw [hlines, List.getElem?_cons_zero] at h
    obtain rfl := Option.some.inj h
    rcases withoutReturn_cases w with hreturn | ⟨hsame, hlast⟩
    · have hw' : '\n' ∉ withoutReturn w := by
        intro hmem
        rw [hreturn] at hw
        exact hw (List.mem_append_left _ hmem)
      refine ⟨['\r', '\n'], cs, ?_, hbefore, hw', .inr (.inl rfl)⟩
      conv_lhs => rw [hreturn]
      simp
    · rw [hsame]
      exact ⟨['\n'], cs, rfl, hbefore, hw, .inl ⟨rfl, hlast⟩⟩
  · rw [hlines, List.getElem?_cons_zero] at h
    obtain rfl := Option.some.inj h
    exact ⟨[], [], by simp, hbefore, hmem, .inr (.inr ⟨rfl, rfl, hne⟩)⟩

theorem lines_getElem?_zero_eq_none {rest : List Char} : (lines rest)[0]? = none ↔ rest = [] := by
  rcases lines_cases rest with rfl | ⟨w, cs, _, rfl, hlines⟩ | ⟨_, hne, hlines⟩
  · simp [lines]
  · simp [hlines]
  · simp [hlines, hne]

/-- A place on a line is on the text of the line or right behind that, or else between the return
and the line feed behind it. -/
theorem IsLine.cut {before k r shown ending after : List Char}
    (h : IsLine (before ++ (k ++ r)) before shown ending after) (hk : '\n' ∉ k) :
    (∃ m, shown = k ++ m ∧ r = m ++ (ending ++ after)) ∨
      k = shown ++ ['\r'] ∧ ending = ['\r', '\n'] ∧ r = '\n' :: after := by
  have htext : k ++ r = shown ++ (ending ++ after) := List.append_cancel_left h.text_eq
  rcases List.append_eq_append_iff.1 htext with ⟨m, hline, hr⟩ | ⟨m, hline, hr⟩
  · exact .inl ⟨m, hline, hr⟩
  · -- What is left of `k` behind the line begins its end, without the line feed.
    have hm : '\n' ∉ m := by
      intro hmem
      exact hk (hline ▸ List.mem_append_right shown hmem)
    cases m with
    | nil => exact .inl ⟨[], by simpa using hline.symm, by simpa using hr.symm⟩
    | cons d m =>
      have hd : '\n' ≠ d := List.ne_of_not_mem_cons hm
      rcases h.ends with ⟨hending, _⟩ | hending | ⟨hending, hafter, _⟩
      · rw [hending] at hr
        exact absurd (List.cons.inj hr).1 hd
      · rw [hending] at hr
        obtain ⟨hreturn, hbehind⟩ := List.cons.inj hr
        cases m with
        | nil => exact .inr ⟨by rw [hline, ← hreturn], hending, hbehind.symm⟩
        | cons d' m =>
          have hd' : '\n' ≠ d' := List.ne_of_not_mem_cons (List.not_mem_of_not_mem_cons hm)
          exact absurd (List.cons.inj hbehind).1 hd'
      · rw [hending, hafter] at hr
        cases hr

end Text

/-- Behind whole lines, the line is the next one and the column counts on. -/
theorem Position.locate_wholeLines {a k : List Char} (ha : Text.WholeLines a) (hk : '\n' ∉ k)
    (r : List Char) : (locate (a ++ (k ++ r)) (Text.byteLength (a ++ k))).line = a.count '\n'+1 ∧
    (locate (a ++ (k ++ r)) (Text.byteLength (a ++ k))).column = k.length+1 := by
  have hbefore : ((Cursor.start (a ++ (k ++ r))).advance (Text.byteLength (a ++ k))).before =
      k.reverse ++ a.reverse := by
    rw [← List.append_assoc, Cursor.advance_start_append, ← List.reverse_append]
    exact List.append_nil _
  have hline : a.reverse.takeWhile (· ≠ '\n') = [] := by
    rcases ha.eq_nil_or with rfl | ⟨as, rfl⟩
    · rfl
    · simp
  have hcolumn : ∀ c ∈ k.reverse, decide (c ≠ '\n') := by
    intro c hc
    have hne : c ≠ '\n' := fun heq => hk (heq ▸ List.mem_reverse.1 hc)
    exact decide_eq_true hne
  simp only [locate, Cursor.position, hbefore]
  rw [List.takeWhile_append_of_pos hcolumn, hline]
  simp [List.count_eq_zero.2 hk]

namespace Text

variable {a k r shown ending after : List Char}

/-- Behind whole lines no line is left only at the end of the text. -/
theorem WholeLines.rest_eq_nil_iff (ha : WholeLines a) (hk : '\n' ∉ k) :
    k ++ r = [] ↔ byteLength (a ++ k) = byteLength (a ++ (k ++ r)) ∧
      (a ++ (k ++ r) = [] ∨ (a ++ (k ++ r)).getLast? = some '\n') := by
  constructor
  · intro h
    obtain ⟨rfl, rfl⟩ := List.append_eq_nil_iff.1 h
    refine ⟨rfl, ?_⟩
    rcases ha.eq_nil_or with rfl | ⟨as, rfl⟩
    · exact .inl rfl
    · right
      simp
  · rintro ⟨hend, hlast⟩
    have hr : r = [] := by
      refine Classical.byContradiction fun hne => ?_
      have hpos := byteLength_pos hne
      simp only [byteLength_append] at hend
      omega
    rw [hr, List.append_nil] at hlast ⊢
    rcases hlast with hnil | hlast
    · exact (List.append_eq_nil_iff.1 hnil).2
    · refine Classical.byContradiction fun hne => ?_
      rw [List.getLast?_append_of_ne_nil a hne] at hlast
      exact hk (List.mem_of_getLast? hlast)

/-- Where on a line a place is of which `k` is before on the line and `r` is behind. -/
theorem IsLine.within (h : IsLine (a ++ (k ++ r)) a shown ending after) (hk : '\n' ∉ k) :
    (byteLength (a ++ k) < byteLength (a ++ shown ++ ending) ∨
      ending = [] ∧ byteLength (a ++ k) = byteLength (a ++ (k ++ r))) ∧
    (k.length ≤ shown.length ∨ k.length = shown.length+1 ∧ ending = ['\r', '\n'] ∧
      byteLength (a ++ k) = byteLength (a ++ shown ++ ['\r'])) ∧
    (byteLength (a ++ k) < byteLength (a ++ shown) → shown[k.length]? = r.head?) := by
  rcases h.cut hk with ⟨m, rfl, rfl⟩ | ⟨rfl, rfl, rfl⟩
  · refine ⟨?_, .inl (by simp), ?_⟩
    · by_cases hmore : m ++ ending = []
      · obtain ⟨rfl, rfl⟩ := List.append_eq_nil_iff.1 hmore
        rcases h.ends with ⟨hending, _⟩ | hending | ⟨_, hafter, _⟩
        · cases hending
        · cases hending
        · right
          simp [hafter]
      · left
        have hpos := byteLength_pos hmore
        simp only [byteLength_append] at hpos ⊢
        omega
    · intro hlt
      have hm : m ≠ [] := by
        intro hm
        simp [hm] at hlt
      obtain ⟨c, m, rfl⟩ := List.exists_cons_of_ne_nil hm
      simp
  · refine ⟨.inl ?_, .inr ⟨by simp, rfl, by rw [List.append_assoc]⟩, ?_⟩
    · have hpos := Char.utf8Size_pos '\n'
      simp only [byteLength_append, byteLength_cons] at hpos ⊢
      omega
    · intro hlt
      simp only [byteLength_append] at hlt
      omega

end Text

namespace CommandLine

/-- A line, and under it a caret behind `n` blanks. -/
def marked (shown : List Char) (n : Nat) : String :=
  "  | " ++ String.ofList shown ++ "\n  | " ++ String.ofList (List.replicate n ' ') ++ "^\n"

theorem caretLines_some {text shown : List Char} {p : Position}
    (h : (Text.lines text)[p.line-1]? = some shown) :
    caretLines text p = marked shown (p.column-1) := by
  rw [caretLines, h]
  rfl

theorem caretLines_none {text : List Char} {p : Position}
    (h : (Text.lines text)[p.line-1]? = none) : caretLines text p = "" := by
  rw [caretLines, h]

/-- An error of a parse is reported for a boundary of the text. There is no line for it only at the
end of a text that is empty or ends in a line feed. Else the line is the one around the place,
without its end. The caret stands under one of its characters, and that is the character at the
place, or right behind them; and one further at the line feed of an end of two characters. -/
theorem caret_at_error (text : String) :
    (∀ l e, Stylesheet.parse text l = some (.error e) →
      ∃ n, Text.IsBoundary text.toList n ∧ e.position = Position.locate text.toList n) ∧
    ∀ n p, Text.IsBoundary text.toList n → p = Position.locate text.toList n →
      ((Text.lines text.toList)[p.line-1]? = none ↔
        n = Text.byteLength text.toList ∧ (text.toList = [] ∨ text.toList.getLast? = some '\n')) ∧
      ((Text.lines text.toList)[p.line-1]? = none → caretLines text.toList p = "") ∧
      ∀ shown, (Text.lines text.toList)[p.line-1]? = some shown →
        caretLines text.toList p = marked shown (p.column-1) ∧
        ∃ before ending after, Text.IsLine text.toList before shown ending after ∧
          Text.byteLength before ≤ n ∧
          (n < Text.byteLength (before ++ shown ++ ending) ∨
            ending = [] ∧ n = Text.byteLength text.toList) ∧
          (p.column-1 ≤ shown.length ∨ p.column-1 = shown.length+1 ∧ ending = ['\r', '\n'] ∧
            n = Text.byteLength (before ++ shown ++ ['\r'])) ∧
          ∀ l c r, text.toList = l ++ c :: r → Text.byteLength l = n →
            n < Text.byteLength (before ++ shown) → shown[p.column-1]? = some c := by
  refine ⟨?_, ?_⟩
  · intro l e h
    obtain ⟨n, hn, he⟩ :=
      Stylesheet.stylesheet_composed.parse_error_at Store.composed_empty (.inr h)
    refine ⟨n, hn, ?_⟩
    cases he <;> rfl
  · intro n p hn hp
    obtain ⟨l, r, htext, rfl⟩ := hn
    obtain ⟨a, k, rfl, ha, hk⟩ := Text.exists_wholeLines l
    rw [List.append_assoc] at htext
    have hlocate := Position.locate_wholeLines ha hk r
    rw [← htext, ← hp] at hlocate
    obtain ⟨hline, hcolumn⟩ := hlocate
    have hlines : (Text.lines text.toList)[p.line-1]? = (Text.lines (k ++ r))[0]? := by
      rw [hline, Nat.add_sub_cancel, htext, ha.lines_append,
        List.getElem?_append_right (Nat.le_of_eq ha.length_lines), ha.length_lines, Nat.sub_self]
    refine ⟨?_, caretLines_none, ?_⟩
    · rw [hlines, Text.lines_getElem?_zero_eq_none, ha.rest_eq_nil_iff hk, htext]
    · intro shown hmem
      obtain ⟨ending, after, hisLine⟩ := ha.isLine (hlines ▸ hmem)
      obtain ⟨hwithin, hcaret, hchar⟩ := hisLine.within hk
      rw [← htext] at hisLine hwithin
      have hle : Text.byteLength a ≤ Text.byteLength (a ++ k) := by
        rw [Text.byteLength_append]
        omega
      refine ⟨caretLines_some hmem, a, ending, after, hisLine, hle, hwithin, ?_, ?_⟩
      · rwa [hcolumn, Nat.add_sub_cancel]
      · intro l c r' hsplit hl hlt
        rw [htext, ← List.append_assoc] at hsplit
        obtain ⟨_, hr⟩ := Text.append_inj_byteLength hsplit hl.symm
        rw [hcolumn, Nat.add_sub_cancel, hchar hlt, hr, List.head?_cons]

/-- Where a parse stops on the second line, at the line feed of an end of two characters, and behind
the last line. -/
theorem caret_at_error_returns :
    (∃ e n, Stylesheet.parse "a\n;\r\n" .standard = some (.error e) ∧
      Text.IsBoundary "a\n;\r\n".toList n ∧ e.position = Position.locate "a\n;\r\n".toList n) ∧
    caretLines "a\n;\r\n".toList (Position.locate "a\n;\r\n".toList 2) = "  | ;\n  | ^\n" ∧
    caretLines "a\n;\r\n".toList (Position.locate "a\n;\r\n".toList 4) = "  | ;\n  |   ^\n" ∧
    caretLines "a\n;\r\n".toList (Position.locate "a\n;\r\n".toList 5) = "" := by
  obtain ⟨hparse, hplace⟩ := caret_at_error "a\n;\r\n"
  obtain ⟨e, he⟩ : ∃ e, Stylesheet.parse "a\n;\r\n" .standard = some (.error e) := ⟨_, rfl⟩
  obtain ⟨n, hn, hposition⟩ := hparse .standard e he
  obtain ⟨_, _, hstop⟩ := hplace 2 _ ⟨"a\n".toList, ";\r\n".toList, rfl, rfl⟩ rfl
  obtain ⟨_, _, hfeed⟩ := hplace 4 _ ⟨"a\n;\r".toList, "\n".toList, rfl, rfl⟩ rfl
  obtain ⟨_, hend, _⟩ := hplace 5 _ ⟨"a\n;\r\n".toList, [], rfl, rfl⟩ rfl
  exact ⟨⟨e, n, he, hn, hposition⟩, (hstop ";".toList rfl).1, (hfeed ";".toList rfl).1, hend rfl⟩

end CommandLine

end Descent
