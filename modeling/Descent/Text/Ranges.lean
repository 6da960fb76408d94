namespace Descent.Text

/-- Whether the ranges stand one behind the other from `n` on, and none of them is empty. -/
def ascendFrom : Nat → List (Nat × Nat) → Bool
  | _, [] => true
  | n, (lo, hi) :: rs => n ≤ lo && lo ≤ hi && ascendFrom (hi+1) rs

theorem le_of_ascendFrom {n : Nat} {rs : List (Nat × Nat)} (h : ascendFrom n rs = true)
    {r : Nat × Nat} (hr : r ∈ rs) : n ≤ r.1 := by
  induction rs generalizing n with
  | nil => cases hr
  | cons q rs ih =>
    simp only [ascendFrom, Bool.and_eq_true, decide_eq_true_eq] at h
    rcases List.mem_cons.1 hr with rfl | hr
    · exact h.1.1
    · have := ih h.2 hr
      omega

/-- Ascending ranges of code points, both ends included. -/
structure Ranges where
  list : List (Nat × Nat)
  ascending : ascendFrom 0 list = true := by decide +kernel

namespace Ranges

/-- Stops at the first range that begins behind `n`. -/
def containedIn (n : Nat) : List (Nat × Nat) → Bool
  | [] => false
  | (lo, hi) :: rs => if n < lo then false else n ≤ hi || containedIn n rs

def contains (rs : Ranges) (n : Nat) : Bool := containedIn n rs.list

theorem containedIn_iff {k n : Nat} {rs : List (Nat × Nat)} (h : ascendFrom k rs = true) :
    containedIn n rs = true ↔ ∃ r ∈ rs, r.1 ≤ n ∧ n ≤ r.2 := by
  induction rs generalizing k with
  | nil => simp [containedIn]
  | cons r rs ih =>
    simp only [ascendFrom, Bool.and_eq_true, decide_eq_true_eq] at h
    by_cases hlo : n < r.1
    · have hbehind (q : Nat × Nat) (hq : q ∈ rs) : r.2+1 ≤ q.1 := le_of_ascendFrom h.2 hq
      simp only [containedIn, hlo, if_true, Bool.false_eq_true, false_iff, List.mem_cons]
      rintro ⟨q, rfl | hq, hn, -⟩
      · omega
      · have := hbehind q hq
        omega
    · simp [containedIn, hlo, ih h.2, Nat.not_lt.1 hlo]

/-- To stop early misses nothing. -/
theorem contains_iff {rs : Ranges} {n : Nat} :
    rs.contains n = true ↔ ∃ r ∈ rs.list, r.1 ≤ n ∧ n ≤ r.2 :=
  containedIn_iff rs.ascending

end Ranges

end Descent.Text
