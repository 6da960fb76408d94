import Mathlib.Data.Nat.Digits.Defs
import Descent.Decimal.Style
import Descent.Text.Quoted

namespace Descent

namespace Text

variable {p : Char → Bool} {xs ys t u : List Char}

/-- Characters of one kind end where another kind begins. -/
theorem append_inj_of_kind (hxs : ∀ c ∈ xs, p c = true) (hys : ∀ c ∈ ys, p c = true)
    (ht : ∀ c ∈ t.head?, p c = false) (hu : ∀ c ∈ u.head?, p c = false) (h : xs ++ t = ys ++ u) :
    xs = ys ∧ t = u := by
  induction xs generalizing ys with
  | nil =>
    cases ys with
    | nil => exact ⟨rfl, h⟩
    | cons y ys =>
      have hy := ht y (by rw [← List.nil_append t, h]; rfl)
      exact absurd (hys y List.mem_cons_self) (Bool.eq_false_iff.1 hy)
  | cons x xs ih =>
    cases ys with
    | nil =>
      have hx := hu x (by rw [← List.nil_append u, ← h]; rfl)
      exact absurd (hxs x List.mem_cons_self) (Bool.eq_false_iff.1 hx)
    | cons y ys =>
      obtain ⟨rfl, hrest⟩ := List.cons.inj h
      obtain ⟨rfl, rfl⟩ := ih (fun c hc => hxs c (List.mem_cons_of_mem _ hc))
        (fun c hc => hys c (List.mem_cons_of_mem _ hc)) hrest
      exact ⟨rfl, rfl⟩

end Text

namespace Decimal

variable {b m n : Nat} {t u : List Char}

theorem digitChar_inj : ∀ {m n : Fin 16}, Nat.digitChar m = Nat.digitChar n → m = n := by decide

theorem digitChar_inj_of_lt (hm : m < 16) (hn : n < 16) (h : Nat.digitChar m = Nat.digitChar n) :
    m = n :=
  Fin.mk.inj (digitChar_inj (m := ⟨m, hm⟩) (n := ⟨n, hn⟩) h)

theorem exists_of_mem_toDigits (hb : 1 < b) {c : Char} (h : c ∈ Nat.toDigits b n) :
    ∃ k < b, c = Nat.digitChar k := by
  induction n using Nat.strongRecOn with
  | ind n ih =>
    rw [Nat.toDigits_eq_if hb] at h
    split at h
    · exact ⟨n, ‹n < b›, List.mem_singleton.1 h⟩
    · rcases List.mem_append.1 h with h | h
      · exact ih _ (Nat.div_lt_self (by omega) hb) h
      · exact ⟨n % b, Nat.mod_lt _ (by omega), List.mem_singleton.1 h⟩

/-- A number is what its digits say. -/
theorem toDigits_inj (hb : 1 < b) (hb' : b ≤ 16) (h : Nat.toDigits b m = Nat.toDigits b n) :
    m = n := by
  induction m using Nat.strongRecOn generalizing n with
  | ind m ih =>
    have hlong (k : Nat) (x : Char) (y : Nat) : Nat.toDigits b k ++ [x] ≠ [Nat.digitChar y] := by
      intro heq
      have hlen := congrArg List.length heq
      have hpos := Nat.length_toDigits_pos (b := b) (n := k)
      simp only [List.length_append, List.length_singleton] at hlen
      omega
    rw [Nat.toDigits_eq_if hb, Nat.toDigits_eq_if (n := n) hb] at h
    split at h
    · split at h
      · exact digitChar_inj_of_lt (by omega) (by omega) (List.cons.inj h).1
      · exact absurd h.symm (hlong _ _ _)
    · split at h
      · exact absurd h (hlong _ _ _)
      · obtain ⟨hfront, hlast⟩ := List.append_inj' h rfl
        have hdiv : m / b = n / b := ih _ (Nat.div_lt_self (by omega) hb) hfront
        have hmod : m % b = n % b :=
          digitChar_inj_of_lt (Nat.lt_of_lt_of_le (Nat.mod_lt _ (by omega)) hb')
          (Nat.lt_of_lt_of_le (Nat.mod_lt _ (by omega)) hb') (List.cons.inj hlast).1
        rw [← Nat.div_add_mod m b, ← Nat.div_add_mod n b, hdiv, hmod]

/-- Whether the character is one of the digits of the base. -/
def isDigit (b : Nat) (c : Char) : Bool := decide (∃ k < b, c = Nat.digitChar k)

theorem isDigit_iff {c : Char} :
    isDigit b c = true ↔ ∃ k < b, c = Nat.digitChar k := decide_eq_true_iff

theorem toDigits_append_inj (hb : 1 < b) (hb' : b ≤ 16) (ht : ∀ c ∈ t.head?, isDigit b c = false)
    (hu : ∀ c ∈ u.head?, isDigit b c = false) (h : Nat.toDigits b m ++ t = Nat.toDigits b n ++ u) :
    m = n ∧ t = u := by
  have hdigit (k : Nat) : ∀ c ∈ Nat.toDigits b k, isDigit b c = true :=
    fun c hc => isDigit_iff.2 (exists_of_mem_toDigits hb hc)
  obtain ⟨hdigits, hrest⟩ := Text.append_inj_of_kind (hdigit m) (hdigit n) ht hu h
  exact ⟨toDigits_inj hb hb' hdigits, hrest⟩

theorem exists_natural (n : Nat) : ∃ c cs, natural n = c :: cs ∧ isDigit 10 c = true := by
  obtain ⟨c, cs, h⟩ := List.exists_cons_of_ne_nil (Nat.toDigits_ne_nil (n := n) (b := 10))
  exact ⟨c, cs, h, isDigit_iff.2 (exists_of_mem_toDigits (by decide) (h ▸ List.mem_cons_self))⟩

theorem exists_integer (n : Int) :
    ∃ c cs, integer n = c :: cs ∧ (c = '-' ∨ isDigit 10 c = true) := by
  unfold integer
  split
  · exact ⟨_, _, rfl, .inl rfl⟩
  · obtain ⟨c, cs, h, hc⟩ := exists_natural n.natAbs
    exact ⟨c, cs, h, .inr hc⟩

theorem natural_append_ne_minus (n : Nat) (t u : List Char) : natural n ++ t ≠ '-' :: u := by
  obtain ⟨c, cs, hn, hc⟩ := exists_natural n
  rw [hn]
  intro h
  obtain rfl := (List.cons.inj h).1
  exact absurd hc (by decide)

/-- An integer and what follows it can be told from what is written, if that does not begin with a
digit. -/
theorem integer_append_inj {m n : Int} (ht : ∀ c ∈ t.head?, isDigit 10 c = false)
    (hu : ∀ c ∈ u.head?, isDigit 10 c = false) (h : integer m ++ t = integer n ++ u) :
    m = n ∧ t = u := by
  have hnatural {k l : Nat} (heq : natural k ++ t = natural l ++ u) : k = l ∧ t = u :=
    toDigits_append_inj (by decide) (by decide) ht hu heq
  unfold integer at h
  split at h
  · split at h
    · obtain ⟨habs, hrest⟩ := hnatural (List.cons.inj h).2
      exact ⟨by omega, hrest⟩
    · exact absurd h.symm (natural_append_ne_minus _ _ _)
  · split at h
    · exact absurd h (natural_append_ne_minus _ _ _)
    · obtain ⟨habs, hrest⟩ := hnatural h
      exact ⟨by omega, hrest⟩

end Decimal

namespace Text.Quoted

variable {marks marks' : Bool} {c d : Char} {cs ds t u : List Char}

/-- The characters that are written as a backslash and one character more, with that character. -/
def letters : List (Char × Char) :=
  [('\x00', '0'), ('\t', 't'), ('\r', 'r'), ('\n', 'n'), ('\\', '\\'), ('"', '"'), ('\'', '\'')]

theorem letters_inj : ∀ p ∈ letters, ∀ q ∈ letters, p.2 = q.2 → p.1 = q.1 := by decide

theorem letter_ne_u : ∀ p ∈ letters, p.2 ≠ 'u' := by decide

/-- A character stands for itself, or it is written by its letter, or by its code point. -/
theorem escapeChar_cases (marks : Bool) (c : Char) :
    (escapeChar marks true c = [c] ∧ c ≠ '\\' ∧ c ≠ '"') ∨
    (∃ x, (c, x) ∈ letters ∧ escapeChar marks true c = ['\\', x]) ∨
      escapeChar marks true c = codePoint c := by
  unfold escapeChar
  split_ifs with hnul htab hreturn hfeed hquote hmark hshown
  · exact .inr (.inl ⟨_, by rw [hnul]; decide, rfl⟩)
  · exact .inr (.inl ⟨_, by rw [htab]; decide, rfl⟩)
  · exact .inr (.inl ⟨_, by rw [hreturn]; decide, rfl⟩)
  · exact .inr (.inl ⟨_, by rw [hfeed]; decide, rfl⟩)
  · refine .inr (.inl ⟨c, ?_, rfl⟩)
    rcases hquote with rfl | rfl | ⟨_, rfl⟩ <;> decide
  · exact .inr (.inr rfl)
  · simp only [not_or] at hquote
    exact .inl ⟨rfl, hquote.1, hquote.2.1⟩
  · exact .inr (.inr rfl)

theorem codePoint_append_inj (h : codePoint c ++ t = codePoint d ++ u) : c = d ∧ t = u := by
  simp only [codePoint, List.cons_append, List.append_assoc, List.nil_append, List.cons.injEq,
    true_and] at h
  have hbrace (rest : List Char) : ∀ x ∈ ('\x7d' :: rest).head?, Decimal.isDigit 16 x = false := by
    intro x hx
    obtain rfl := Option.some.inj hx
    decide
  obtain ⟨hcode, hrest⟩ :=
    Decimal.toDigits_append_inj (b := 16) (by decide) (by decide) (hbrace t) (hbrace u) h
  exact ⟨Char.toNat_inj.1 hcode, (List.cons.inj hrest).2⟩

/-- A character and what follows it can be told from what is written, whichever way joining
characters are written. -/
theorem escapeChar_append_inj (h : escapeChar marks true c ++ t = escapeChar marks' true d ++ u) :
    c = d ∧ t = u := by
  rcases escapeChar_cases marks c with ⟨hc, hcslash, _⟩ | ⟨x, hx, hc⟩ | hc <;>
    rcases escapeChar_cases marks' d with ⟨hd, hdslash, _⟩ | ⟨y, hy, hd⟩ | hd <;> rw [hc, hd] at h
  · exact List.cons.inj h
  · exact absurd (List.cons.inj h).1 hcslash
  · exact absurd (List.cons.inj h).1 hcslash
  · exact absurd (List.cons.inj h).1.symm hdslash
  · obtain ⟨hletter, hrest⟩ := List.cons.inj (List.cons.inj h).2
    exact ⟨letters_inj _ hx _ hy hletter, hrest⟩
  · exact absurd (List.cons.inj (List.cons.inj h).2).1 (letter_ne_u _ hx)
  · exact absurd (List.cons.inj h).1.symm hdslash
  · exact absurd (List.cons.inj (List.cons.inj h).2).1.symm (letter_ne_u _ hy)
  · exact codePoint_append_inj h

theorem escapeChar_append_ne_quote (marks : Bool) (c : Char) (t u : List Char) :
    escapeChar marks true c ++ t ≠ '"' :: u := by
  intro h
  rcases escapeChar_cases marks c with ⟨hc, _, hquote⟩ | ⟨x, _, hc⟩ | hc <;> rw [hc] at h
  · exact hquote (List.cons.inj h).1
  · exact absurd (List.cons.inj h).1 (by decide)
  · exact absurd (List.cons.inj h).1 (by decide)

/-- A text as it stands in quotation, if `marks` tells how its first character is written. -/
def escapeFrom (marks : Bool) : List Char → List Char
  | [] => []
  | c :: cs => escapeChar marks true c ++ escapeFrom false cs

theorem escape_eq (cs : List Char) : escape cs = escapeFrom true cs := by
  have hbehind (cs : List Char) : cs.flatMap (escapeChar false true) = escapeFrom false cs := by
    induction cs with
    | nil => rfl
    | cons c cs ih => rw [List.flatMap_cons, ih, escapeFrom]
  cases cs with
  | nil => rfl
  | cons c cs => rw [escape, hbehind, escapeFrom]

theorem escapeFrom_append_inj
    (h : escapeFrom marks cs ++ '"' :: t = escapeFrom marks ds ++ '"' :: u) :
    cs = ds ∧ t = u := by
  induction cs generalizing marks ds with
  | nil =>
    cases ds with
    | nil => exact ⟨rfl, (List.cons.inj h).2⟩
    | cons d ds =>
      rw [escapeFrom, escapeFrom, List.append_assoc] at h
      exact absurd h.symm (escapeChar_append_ne_quote _ _ _ _)
  | cons c cs ih =>
    cases ds with
    | nil =>
      rw [escapeFrom, escapeFrom, List.append_assoc] at h
      exact absurd h (escapeChar_append_ne_quote _ _ _ _)
    | cons d ds =>
      rw [escapeFrom, escapeFrom, List.append_assoc, List.append_assoc] at h
      obtain ⟨rfl, hrest⟩ := escapeChar_append_inj h
      obtain ⟨rfl, rfl⟩ := ih hrest
      exact ⟨rfl, rfl⟩

/-- A text in quotation and what follows the quotation can be told from what is written. -/
theorem escape_append_inj (h : escape cs ++ '"' :: t = escape ds ++ '"' :: u) :
    cs = ds ∧ t = u := by
  rw [escape_eq, escape_eq] at h
  exact escapeFrom_append_inj h

end Text.Quoted

end Descent
