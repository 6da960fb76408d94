import Descent.Regex.Match

namespace Descent

namespace CharSet

/-- All of `taken` is in the set, and what comes right behind it is not. -/
structure Spans (s : CharSet) (taken left : List Char) : Prop where
  all : ∀ c ∈ taken, s.contains c = true
  stops : ∀ c ∈ left.head?, s.contains c = false

variable {s : CharSet} {a c : Char} {taken left : List Char}

theorem Spans.tail (h : s.Spans (c :: taken) left) : s.Spans taken left :=
  ⟨fun a ha => h.all a (List.mem_cons_of_mem c ha), h.stops⟩

theorem Spans.head (h : s.Spans (c :: taken) left) : s.contains c = true :=
  h.all c List.mem_cons_self

/-- Every text begins with a run of characters of the set. -/
theorem exists_spans (s : CharSet) (text : List Char) :
    ∃ taken left, text = taken ++ left ∧ s.Spans taken left := by
  induction text with
  | nil => exact ⟨[], [], rfl, List.forall_mem_nil _, nofun⟩
  | cons c cs ih =>
    cases hc : s.contains c with
    | true =>
      obtain ⟨taken, left, rfl, h⟩ := ih
      exact ⟨c :: taken, left, rfl, List.forall_mem_cons.2 ⟨hc, h.all⟩, h.stops⟩
    | false =>
      refine ⟨[], c :: cs, rfl, List.forall_mem_nil _, ?_⟩
      rintro a ⟨⟩
      exact hc

theorem contains_single : (single a).contains c = true ↔ c = a := by
  rw [single, contains, Bool.and_eq_true, decide_eq_true_eq, decide_eq_true_eq]
  exact ⟨fun h => Char.le_antisymm h.2 h.1, fun h => h ▸ ⟨Char.le_refl c, Char.le_refl c⟩⟩

theorem contains_single_self (a : Char) : (single a).contains a = true := contains_single.2 rfl

theorem contains_single_ne (h : c ≠ a) : (single a).contains c = false :=
  Bool.eq_false_iff.2 fun hc => h (contains_single.1 hc)

end CharSet

namespace Regex

variable {prev next : Option Char} {ways : List Regex} {n : Nat} {best : Option Nat} {c : Char}
  {cs taken left : List Char} {bs : List Branch} {accepts : Bool} {a b r w : Regex} {s t : CharSet}

theorem scan_read (h : frontier prev (some c) ways = (bs, accepts)) {ws : List Regex}
    (hafter : afterChar c bs = w :: ws) :
    scan prev ways n best (c :: cs) = scan (some c) (w :: ws) (n+1)
      (if accepts then some n else best) cs := by
  rw [scan, h]
  simp only [hafter]

/-- Where no branch goes on, the scan is over. -/
theorem scan_halt (h : frontier prev left.head? ways = (bs, accepts))
    (hafter : ∀ c ∈ left.head?, afterChar c bs = []) :
    scan prev ways n best left = if accepts then some n else best := by
  cases left with
  | nil =>
    rw [scan, show frontier prev none ways = (bs, accepts) from h]
  | cons c left =>
    rw [scan, show frontier prev (some c) ways = (bs, accepts) from h]
    simp only [hafter c rfl]

/-- Of a way, all that counts is how it branches. -/
theorem scan_congr (h : ∀ next, a.branches prev next = b.branches prev next) :
    scan prev [a] n best cs = scan prev [b] n best cs := by
  have hfrontier (next : Option Char) : frontier prev next [a] = frontier prev next [b] := by
    simp only [frontier, List.foldl, h]
  cases cs <;> simp only [scan, hfrontier]

theorem afterChar_single (h : s.contains c = true) (r : Regex) : afterChar c [.read s r] = [r] := by
  simp [afterChar, pool, h]

theorem afterChar_cons_of_not (h : s.contains c = false) (r : Regex) (bs : List Branch) :
    afterChar c (.read s r :: bs) = afterChar c bs := by
  simp [afterChar, h]

theorem afterChar_none (h : s.contains c = false) (r : Regex) : afterChar c [.read s r] = [] :=
  afterChar_cons_of_not h r []

theorem afterChar_both (hs : s.contains c = true) (ht : t.contains c = true) (hne : w ≠ r) :
    afterChar c [.read s r, .read t w] = [r, w] := by
  simp [afterChar, pool, hs, ht, hne]

theorem frontier_one (h : a.branches prev next = [.read s r]) :
    frontier prev next [a] = ([.read s r], false) := by
  simp only [frontier, List.foldl, h]
  rfl

theorem frontier_two (h : a.branches prev next = [.read s r, .read t w])
    (hne : Branch.read t w ≠ .read s r) :
    frontier prev next [a] = ([.read s r, .read t w], false) := by
  simp [frontier, h, pool, hne, List.takeWhile, Branch.isRead]

theorem frontier_empty (prev next : Option Char) : frontier prev next [.empty] = ([], true) := rfl

theorem scan_empty : scan prev [.empty] n best left = some n :=
  scan_halt (frontier_empty _ _) fun _ _ => rfl

theorem scan_seq (h : s.contains c = true) :
    scan prev [.seq (.set s) r] n best (c :: cs) = scan (some c) [r] (n+1) best cs :=
  scan_read (frontier_one rfl) (afterChar_single h r)

theorem scan_seq_halt (h : ∀ c ∈ left.head?, s.contains c = false) :
    scan prev [.seq (.set s) r] n best left = best :=
  scan_halt (frontier_one rfl) fun c hc => afterChar_none (h c hc) r

theorem matchLength?_seq_none (h : ∀ c ∈ left.head?, s.contains c = false) (prev : Option Char) :
    (seq (.set s) r).matchLength? prev left = none := scan_seq_halt h

section

theorem frontier_more (prev next : Option Char) (s : CharSet) :
    frontier prev next [.more true (.set s)] = ([.read s (.more true (.set s))], true) := rfl

theorem frontier_plus (prev next : Option Char) (s : CharSet) :
    frontier prev next [.plus true (.set s)] = ([.read s (.more true (.set s))], false) := rfl

theorem scan_more (h : s.Spans taken left) :
    scan prev [.more true (.set s)] n best (taken ++ left) = some (n+taken.length) := by
  induction taken generalizing prev n best with
  | nil => exact scan_halt (frontier_more _ _ s) fun c hc => afterChar_none (h.stops c hc) _
  | cons c taken ih =>
    rw [List.cons_append, scan_read (frontier_more _ _ s) (afterChar_single h.head _), ih h.tail,
      List.length_cons]
    congr 1
    omega

theorem scan_star (h : s.Spans taken left) :
    scan prev [star true (.set s)] n best (taken ++ left) = some (n+taken.length) := by
  have hbranches (next : Option Char) :
      (star true (.set s)).branches prev next = (more true (.set s)).branches prev next := rfl
  rw [scan_congr hbranches, scan_more h]

theorem matchLength?_plus (h : s.Spans taken left) (hne : taken ≠ []) (prev : Option Char) :
    (plus true (.set s)).matchLength? prev (taken ++ left) = some taken.length := by
  cases taken with
  | nil => exact absurd rfl hne
  | cons c taken =>
    rw [matchLength?, List.cons_append, scan_read (frontier_plus _ _ s) (afterChar_single h.head _),
      scan_more h.tail, List.length_cons]
    congr 1
    omega

theorem matchLength?_plus_none (h : ∀ c ∈ left.head?, s.contains c = false) (prev : Option Char) :
    (plus true (.set s)).matchLength? prev left = none :=
  scan_halt (frontier_plus _ _ s) fun c hc => afterChar_none (h c hc) _

end

section

variable {sign first rest : CharSet}

/-- A character of `first`, and then any number of characters of `rest`. -/
def run (first rest : CharSet) : Regex := .seq (.set first) (star true (.set rest))

/-- The same behind a character of `sign`, if there is one. -/
def signed (sign first rest : CharSet) : Regex := .seq (optional true (.set sign)) (run first rest)

theorem scan_run (hc : first.contains c = true) (h : rest.Spans taken left) :
    scan prev [run first rest] n best (c :: (taken ++ left)) = some (n+taken.length+1) := by
  rw [run, scan_seq hc, scan_star h]
  congr 1
  omega

theorem matchLength?_run (hc : first.contains c = true) (h : rest.Spans taken left)
    (prev : Option Char) :
    (run first rest).matchLength? prev (c :: taken ++ left) = some (c :: taken).length := by
  rw [matchLength?, List.cons_append, scan_run hc h, List.length_cons, Nat.zero_add]

theorem frontier_signed (prev next : Option Char) (sign first rest : CharSet) :
    frontier prev next [signed sign first rest] =
    ([.read sign (run first rest), .read first (star true (.set rest))], false) :=
  frontier_two rfl (by simp [run, star, optional, prefer])

theorem matchLength?_signed (hsign : sign.contains c = true) {a : Char}
    (hfirst : first.contains c = false) (ha : first.contains a = true) (h : rest.Spans taken left)
    (prev : Option Char) :
    (signed sign first rest).matchLength? prev (c :: a :: taken ++ left) =
      some (c :: a :: taken).length := by
  have hafter : afterChar c [.read sign (run first rest), .read first (star true (.set rest))] =
      [run first rest] := by
    simp [afterChar, pool, hsign, hfirst]
  rw [matchLength?, List.cons_append, scan_read (frontier_signed _ _ sign first rest) hafter,
    List.cons_append, scan_run ha h, List.length_cons, List.length_cons]
  congr 1
  omega

theorem matchLength?_unsigned (hsign : sign.contains c = false) (hfirst : first.contains c = true)
    (h : rest.Spans taken left) (prev : Option Char) :
    (signed sign first rest).matchLength? prev (c :: taken ++ left) = some (c :: taken).length := by
  have hafter : afterChar c [.read sign (run first rest), .read first (star true (.set rest))] =
      [star true (.set rest)] := by
    rw [afterChar_cons_of_not hsign, afterChar_single hfirst]
  rw [matchLength?, List.cons_append,
    scan_read (frontier_signed _ _ sign first rest) hafter, scan_star h, List.length_cons]
  congr 1
  omega

theorem matchLength?_signed_none
    (h : ∀ c ∈ left.head?, sign.contains c = false ∧ first.contains c = false)
    (prev : Option Char) : (signed sign first rest).matchLength? prev left = none := by
  refine scan_halt (frontier_signed _ _ sign first rest) fun c hc => ?_
  rw [afterChar_cons_of_not (h c hc).1, afterChar_none (h c hc).2]

theorem matchLength?_signed_bare (hsign : sign.contains c = true)
    (hfirst : first.contains c = false) (h : ∀ a ∈ left.head?, first.contains a = false)
    (prev : Option Char) :
    (signed sign first rest).matchLength? prev (c :: left) = none := by
  have hafter : afterChar c [.read sign (run first rest), .read first (star true (.set rest))] =
      [run first rest] := by
    simp [afterChar, pool, hsign, hfirst]
  rw [matchLength?, scan_read (frontier_signed _ _ sign first rest) hafter]
  exact scan_seq_halt h

end

section

variable {one first second : CharSet}

/-- A character of `one`, or a pair of a character of `first` and one of `second`. -/
def paired (one first second : CharSet) : Regex := .alt (.set one) (.seq (.set first) (.set second))

/-- A text of such characters and pairs. -/
inductive Paired (one first second : CharSet) : List Char → Prop
  | nil : Paired one first second []
  | single {c : Char} {cs : List Char} (hc : one.contains c = true)
    (h : Paired one first second cs) : Paired one first second (c :: cs)
  | pair {c d : Char} {cs : List Char} (hc : first.contains c = true)
    (hd : second.contains d = true)
    (h : Paired one first second cs) : Paired one first second (c :: d :: cs)

/-- The text begins with no such character and no such pair. -/
def PairStops (one first second : CharSet) (left : List Char) : Prop :=
  ∀ c ∈ left.head?, one.contains c = false ∧
    (first.contains c = true → ∀ d ∈ left.tail.head?, second.contains d = false)

theorem Paired.append (h : Paired one first second taken) (hleft : Paired one first second left) :
    Paired one first second (taken ++ left) := by
  induction h with
  | nil => exact hleft
  | single hc _ ih => exact .single hc ih
  | pair hc hd _ ih => exact .pair hc hd ih

/-- The branches of a repetition of them. -/
def pairBranches (one first second : CharSet) : List Branch :=
  [.read one (.more true (paired one first second)),
    .read first (.seq (.set second) (.more true (paired one first second)))]

theorem frontier_morePaired (prev next : Option Char) (one first second : CharSet) :
    frontier prev next [.more true (paired one first second)] =
      (pairBranches one first second, true) := by
  simp [frontier, paired, pairBranches, branches, pool, Branch.followedBy, followedBy,
    List.takeWhile, List.filter, Branch.isRead]

theorem frontier_plusPaired (prev next : Option Char) (one first second : CharSet) :
    frontier prev next [.plus true (paired one first second)] =
      (pairBranches one first second, false) := by
  simp [frontier, paired, pairBranches, branches, pool, Branch.followedBy, followedBy,
    List.takeWhile, Branch.isRead]

theorem afterChar_first (h : one.contains c = false) (hfirst : first.contains c = true) :
    afterChar c (pairBranches one first second) =
      [.seq (.set second) (.more true (paired one first second))] := by
  rw [pairBranches, afterChar_cons_of_not h, afterChar_single hfirst]

theorem afterChar_neither (h : one.contains c = false) (hfirst : first.contains c = false) :
    afterChar c (pairBranches one first second) = [] := by
  rw [pairBranches, afterChar_cons_of_not h, afterChar_none hfirst]

/-- Every text begins with as many such characters and pairs as there are. -/
theorem exists_paired (one first second : CharSet) (text : List Char) :
    ∃ taken left, text = taken ++ left ∧ Paired one first second taken ∧
      PairStops one first second left := by
  match text with
  | [] => exact ⟨[], [], rfl, .nil, nofun⟩
  | c :: cs =>
    by_cases hc : one.contains c = true
    · obtain ⟨taken, left, rfl, htaken, hleft⟩ := exists_paired one first second cs
      exact ⟨c :: taken, left, rfl, .single hc htaken, hleft⟩
    · by_cases hpair : first.contains c = true ∧ ∃ d ∈ cs.head?, second.contains d = true
      · obtain ⟨hfirst, d, hd, hsecond⟩ := hpair
        obtain ⟨ds, rfl⟩ := List.head?_eq_some_iff.1 hd
        obtain ⟨taken, left, rfl, htaken, hleft⟩ := exists_paired one first second ds
        exact ⟨c :: d :: taken, left, rfl, .pair hfirst hsecond htaken, hleft⟩
      · refine ⟨[], c :: cs, rfl, .nil, ?_⟩
        rintro a ⟨⟩
        exact ⟨Bool.eq_false_iff.2 hc,
          fun hfirst d hd => Bool.eq_false_iff.2 fun hsecond => hpair ⟨hfirst, d, hd, hsecond⟩⟩
termination_by text.length

theorem scan_pairStops
    (h : frontier prev left.head? ways = (pairBranches one first second, accepts))
    (hleft : PairStops one first second left) :
    scan prev ways n best left = if accepts then some n else best := by
  cases left with
  | nil => exact scan_halt h nofun
  | cons c left =>
    obtain ⟨hone, hpair⟩ := hleft c rfl
    cases hfirst : first.contains c with
    | false =>
      refine scan_halt h fun d hd => ?_
      obtain rfl := Option.some.inj hd
      exact afterChar_neither hone hfirst
    | true =>
      rw [scan_read h (afterChar_first hone hfirst)]
      exact scan_seq_halt (hpair hfirst)

theorem matchLength?_paired_none (h : PairStops one first second left) (prev : Option Char) :
    (plus true (paired one first second)).matchLength? prev left = none :=
  scan_pairStops (frontier_plusPaired _ _ one first second) h

variable (hdisjoint : ∀ c, first.contains c = true → one.contains c = false)
include hdisjoint

theorem afterChar_one (h : one.contains c = true) :
    afterChar c (pairBranches one first second) = [.more true (paired one first second)] := by
  have hfirst : first.contains c = false := Bool.eq_false_iff.2 fun hfirst => by
    rw [hdisjoint c hfirst] at h
    cases h
  simp [afterChar, pairBranches, pool, h, hfirst]

theorem scan_pair {d : Char}
    (h : frontier prev (some c) ways = (pairBranches one first second, accepts))
    (hc : first.contains c = true) (hd : second.contains d = true) :
    scan prev ways n best (c :: d :: cs) =
      scan (some d) [.more true (paired one first second)] (n+1+1)
        (if accepts then some n else best) cs := by
  rw [scan_read h (afterChar_first (hdisjoint c hc) hc), scan_seq hd]

theorem scan_morePaired (h : Paired one first second taken)
    (hleft : PairStops one first second left) :
    scan prev [.more true (paired one first second)] n best (taken ++ left) =
      some (n+taken.length) := by
  induction h generalizing prev n best with
  | nil => exact scan_pairStops (frontier_morePaired _ _ one first second) hleft
  | single hc _ ih =>
    rw [List.cons_append, scan_read (frontier_morePaired _ _ one first second)
      (afterChar_one hdisjoint hc), ih, List.length_cons]
    congr 1
    omega
  | pair hc hd _ ih =>
    rw [List.cons_append, List.cons_append,
      scan_pair hdisjoint (frontier_morePaired _ _ one first second) hc hd, ih, List.length_cons,
        List.length_cons]
    congr 1
    omega

theorem matchLength?_paired (h : Paired one first second taken)
    (hleft : PairStops one first second left) (hne : taken ≠ []) (prev : Option Char) :
    (plus true (paired one first second)).matchLength? prev (taken ++ left) =
      some taken.length := by
  cases h with
  | nil => exact absurd rfl hne
  | single hc h =>
    rw [matchLength?, List.cons_append,
      scan_read (frontier_plusPaired _ _ one first second) (afterChar_one hdisjoint hc),
        scan_morePaired hdisjoint h hleft, List.length_cons]
    congr 1
    omega
  | pair hc hd h =>
    rw [matchLength?, List.cons_append, List.cons_append,
      scan_pair hdisjoint (frontier_plusPaired _ _ one first second) hc hd,
        scan_morePaired hdisjoint h hleft,
      List.length_cons, List.length_cons]
    congr 1
    omega

end

section

/-- One character after the other. -/
def word : List Char → Regex
  | [] => .empty
  | [c] => .set (.single c)
  | c :: cs => .seq (.set (.single c)) (word cs)

/-- What is left of a word with blanks before it, once there has been a blank. -/
def blankWord (s : CharSet) (cs : List Char) : Regex := .seq (.more true (.set s)) (word cs)

variable {blanks : List Char}

theorem branches_word (prev next : Option Char) (c : Char) (cs : List Char) :
    (word (c :: cs)).branches prev next = [.read (.single c) (word cs)] := by
  cases cs <;> rfl

theorem branches_blankWord (prev next : Option Char) (s : CharSet) (c : Char) (cs : List Char) :
    (blankWord s (c :: cs)).branches prev next =
      [.read s (blankWord s (c :: cs)), .read (.single c) (word cs)] := by
  rw [blankWord, branches, branches_word]
  cases cs <;> rfl

theorem branches_starWord (prev next : Option Char) (s : CharSet) (c : Char) (cs : List Char) :
    (seq (star true (.set s)) (word (c :: cs))).branches prev next =
      (blankWord s (c :: cs)).branches prev next := by
  rw [branches_blankWord, branches, branches_word]
  cases cs <;> rfl

theorem scan_word : scan prev [word taken] n best (taken ++ left) = some (n+taken.length) := by
  induction taken generalizing prev n best with
  | nil => exact scan_empty
  | cons c cs ih =>
    have hafter := afterChar_single (CharSet.contains_single_self c) (word cs)
    rw [List.cons_append, scan_read (frontier_one (branches_word _ _ c cs)) hafter, ih,
      List.length_cons]
    congr 1
    omega

theorem scan_word_none (h : ¬ cs <+: left) : scan prev [word cs] n best left = best := by
  induction cs generalizing prev n left with
  | nil => exact absurd (List.nil_prefix) h
  | cons c cs ih =>
    have hfrontier (prev next : Option Char) := frontier_one (branches_word prev next c cs)
    cases left with
    | nil => exact scan_halt (hfrontier _ _) nofun
    | cons a left =>
      by_cases ha : a = c
      · rw [scan_read (hfrontier _ _) (afterChar_single (CharSet.contains_single.2 ha) (word cs)),
          if_neg Bool.false_ne_true]
        exact ih fun hprefix => h (List.cons_prefix_cons.2 ⟨ha.symm, hprefix⟩)
      · refine scan_halt (hfrontier _ _) ?_
        rintro d ⟨⟩
        exact afterChar_none (CharSet.contains_single_ne ha) (word cs)

theorem frontier_blankWord (prev next : Option Char) (hc : s.contains c = false) (cs : List Char) :
    frontier prev next [blankWord s (c :: cs)] =
      ([.read s (blankWord s (c :: cs)), .read (.single c) (word cs)], false) :=
  frontier_two (branches_blankWord prev next s c cs) fun h => by
    rw [← (Branch.read.inj h).1, CharSet.contains_single_self] at hc
    cases hc

theorem scan_blankWord (hblanks : ∀ b ∈ blanks, s.contains b = true) (hc : s.contains c = false) :
    scan prev [blankWord s (c :: cs)] n best (blanks ++ (c :: cs ++ left)) =
      some (n+blanks.length+(c :: cs).length) := by
  induction blanks generalizing prev n best with
  | nil =>
    have hafter : afterChar c [.read s (blankWord s (c :: cs)), .read (.single c) (word cs)] =
        [word cs] := by
      rw [afterChar_cons_of_not hc, afterChar_single (CharSet.contains_single_self c)]
    rw [List.nil_append, List.cons_append, scan_read (frontier_blankWord _ _ hc cs) hafter,
      scan_word, List.length_cons, List.length_nil]
    congr 1
    omega
  | cons b blanks ih =>
    have hb := hblanks b List.mem_cons_self
    have hbc : b ≠ c := by
      rintro rfl
      rw [hc] at hb
      cases hb
    have hafter : afterChar b [.read s (blankWord s (c :: cs)), .read (.single c) (word cs)] =
        [blankWord s (c :: cs)] := by
      simp [afterChar, pool, hb, CharSet.contains_single_ne hbc]
    rw [List.cons_append, scan_read (frontier_blankWord _ _ hc cs) hafter,
      ih fun a ha => hblanks a (List.mem_cons_of_mem b ha)]
    simp only [List.length_cons]
    congr 1
    omega

/-- Where no blanks lead to the word, there is no match. -/
theorem scan_blankWord_none (hc : s.contains c = false)
    (h : ∀ blanks more, (∀ b ∈ blanks, s.contains b = true) → left ≠ blanks ++ (c :: cs ++ more)) :
    scan prev [blankWord s (c :: cs)] n best left = best := by
  induction left generalizing prev n with
  | nil => exact scan_halt (frontier_blankWord _ _ hc cs) nofun
  | cons a left ih =>
    cases ha : s.contains a with
    | true =>
      have hne : a ≠ c := by
        rintro rfl
        rw [hc] at ha
        cases ha
      have hafter : afterChar a [.read s (blankWord s (c :: cs)), .read (.single c) (word cs)] =
          [blankWord s (c :: cs)] := by
        simp [afterChar, pool, ha, CharSet.contains_single_ne hne]
      rw [scan_read (frontier_blankWord _ _ hc cs) hafter, if_neg Bool.false_ne_true]
      refine ih fun blanks more hblanks heq =>
        h (a :: blanks) more (List.forall_mem_cons.2 ⟨ha, hblanks⟩) ?_
      rw [heq]
      rfl
    | false =>
      by_cases heq : a = c
      · have hafter : afterChar a [.read s (blankWord s (c :: cs)), .read (.single c) (word cs)] =
            [word cs] := by
          rw [afterChar_cons_of_not ha, afterChar_single (CharSet.contains_single.2 heq)]
        rw [scan_read (frontier_blankWord _ _ hc cs) hafter, if_neg Bool.false_ne_true]
        refine scan_word_none ?_
        rintro ⟨more, rfl⟩
        exact h [] more (List.forall_mem_nil _) (congrArg (· :: (cs ++ more)) heq)
      · refine scan_halt (frontier_blankWord _ _ hc cs) ?_
        rintro d ⟨⟩
        rw [afterChar_cons_of_not ha, afterChar_none (CharSet.contains_single_ne heq)]

theorem matchLength?_marked (mark : Char) (hblanks : ∀ b ∈ blanks, s.contains b = true)
    (hc : s.contains c = false) (prev : Option Char) :
    (seq (.set (.single mark)) (.seq (star true (.set s)) (word (c :: cs)))).matchLength? prev
      (mark :: (blanks ++ (c :: cs)) ++ left) = some (mark :: (blanks ++ (c :: cs))).length := by
  rw [matchLength?, List.cons_append, scan_seq (CharSet.contains_single_self mark),
    List.append_assoc, scan_congr fun next => branches_starWord _ next s c cs,
      scan_blankWord hblanks hc]
  simp only [List.length_cons, List.length_append]
  congr 1
  omega

theorem matchLength?_marked_none {mark : Char} (hc : s.contains c = false)
    (h : ∀ blanks more, (∀ b ∈ blanks, s.contains b = true) →
      left ≠ mark :: (blanks ++ (c :: cs)) ++ more)
    (prev : Option Char) :
    (seq (.set (.single mark)) (.seq (star true (.set s)) (word (c :: cs)))).matchLength? prev
      left = none := by
  cases left with
  | nil => exact matchLength?_seq_none (by rintro d ⟨⟩) prev
  | cons a left =>
    by_cases ha : a = mark
    · rw [matchLength?, scan_seq (CharSet.contains_single.2 ha),
        scan_congr fun next => branches_starWord _ next s c cs]
      refine scan_blankWord_none hc fun blanks more hblanks heq => h blanks more hblanks ?_
      rw [heq, ha]
      simp only [List.cons_append, List.append_assoc]
    · refine matchLength?_seq_none ?_ prev
      rintro d ⟨⟩
      exact CharSet.contains_single_ne ha

end

section

variable {all : CharSet} {u v : Char} {body : List Char}

/-- Any number of characters but as few as possible, in front of a pair. -/
def upToPair (all : CharSet) (u v : Char) : Regex :=
  .seq (star false (.set all)) (.seq (.set (.single u)) (.set (.single v)))

/-- What is left of it once a character has been read. -/
def moreToPair (all : CharSet) (u v : Char) : Regex :=
  .seq (.more false (.set all)) (.seq (.set (.single u)) (.set (.single v)))

/-- The ways that remain in front of the pair. `begun` says that its first character stands right
before. -/
def pairWays (all : CharSet) (u v : Char) (begun : Bool) : List Regex :=
  if begun then [.set (.single v), moreToPair all u v] else [moreToPair all u v]

theorem frontier_moreToPair (prev next : Option Char) (all : CharSet) (u v : Char) :
    frontier prev next [moreToPair all u v] =
      ([.read (.single u) (.set (.single v)), .read all (moreToPair all u v)], false) :=
  frontier_two rfl (by simp [moreToPair])

theorem frontier_begun (prev next : Option Char) (all : CharSet) (u v : Char) :
    frontier prev next [.set (.single v), moreToPair all u v] =
      ([.read (.single v) .empty, .read (.single u) (.set (.single v)),
        .read all (moreToPair all u v)], false) := by
  simp [frontier, moreToPair, branches, pool, Branch.followedBy, followedBy, List.takeWhile,
    List.filter, Branch.isRead]

theorem frontier_ended (prev next : Option Char) (all : CharSet) (u v : Char) :
    frontier prev next [.empty, moreToPair all u v] = ([], true) := by
  simp [frontier, moreToPair, branches, pool, Branch.followedBy, followedBy, List.filter,
    Branch.isRead]

variable (hall : ∀ c, all.contains c = true)
include hall

theorem afterChar_moreToPair (u v c : Char) :
    afterChar c [.read (.single u) (.set (.single v)), .read all (moreToPair all u v)] =
      pairWays all u v (decide (c = u)) := by
  by_cases h : c = u
  · rw [afterChar_both (CharSet.contains_single.2 h) (hall c) (by simp [moreToPair]), pairWays,
      decide_eq_true h]
    rfl
  · rw [afterChar_cons_of_not (CharSet.contains_single_ne h), afterChar_single (hall c), pairWays,
      decide_eq_false h]
    rfl

/-- A character that does not end the pair. -/
theorem scan_pairWays {begun : Bool} (h : begun = true → c ≠ v) :
    scan prev (pairWays all u v begun) n best (c :: cs) =
    scan (some c) (pairWays all u v (decide (c = u))) (n+1) best cs := by
  have hafter := afterChar_moreToPair hall u v c
  obtain ⟨w, ws, hways⟩ : ∃ w ws, pairWays all u v (decide (c = u)) = w :: ws := by
    cases decide (c = u) <;> exact ⟨_, _, rfl⟩
  rw [hways] at hafter ⊢
  cases begun with
  | false => exact scan_read (frontier_moreToPair _ _ all u v) hafter
  | true =>
    refine scan_read (frontier_begun _ _ all u v) ?_
    rw [afterChar_cons_of_not (CharSet.contains_single_ne (h rfl)), hafter]

/-- The character that ends the pair. -/
theorem scan_pairWays_end (h : u ≠ v) :
    scan prev (pairWays all u v true) n best (v :: left) = some (n+1) := by
  have hafter : afterChar v [.read (.single v) .empty, .read (.single u) (.set (.single v)),
      .read all (moreToPair all u v)] = [.empty, moreToPair all u v] := by
    simp [afterChar, pool, moreToPair, CharSet.contains_single_self,
      CharSet.contains_single_ne h.symm, hall]
  rw [pairWays, if_pos rfl, scan_read (frontier_begun _ _ all u v) hafter]
  exact scan_halt (frontier_ended _ _ all u v) fun _ _ => rfl

/-- The pair ends where it first occurs. -/
theorem scan_toPair (h : u ≠ v) (hbody : ¬ [u, v] <:+: body) {begun : Bool}
    (hbegun : begun = true → body.head? ≠ some v) :
    scan prev (pairWays all u v begun) n best (body ++ u :: v :: left) =
      some (n+body.length+2) := by
  induction body generalizing prev n best begun with
  | nil =>
    have hways : pairWays all u v (decide (u = u)) = pairWays all u v true := by
      rw [decide_eq_true rfl]
    rw [List.nil_append, scan_pairWays hall fun _ => h, hways, scan_pairWays_end hall h]
    rfl
  | cons c body ih =>
    have hc : begun = true → c ≠ v := fun hb heq => hbegun hb (congrArg some heq)
    have hfree : ¬ [u, v] <:+: body :=
      fun hmid => hbody (hmid.trans (List.suffix_cons c body).isInfix)
    have hhead : decide (c = u) = true → body.head? ≠ some v := by
      intro hcu heq
      obtain ⟨cs, rfl⟩ := List.head?_eq_some_iff.1 heq
      obtain rfl := of_decide_eq_true hcu
      exact hbody (List.prefix_append [c, v] cs).isInfix
    rw [List.cons_append, scan_pairWays hall hc, ih hfree hhead, List.length_cons]
    congr 1
    omega

/-- Without the pair there is no match. -/
theorem scan_toPair_none (h : ¬ [u, v] <:+: left) {begun : Bool}
    (hbegun : begun = true → left.head? ≠ some v) :
    scan prev (pairWays all u v begun) n best left = best := by
  induction left generalizing prev n begun with
  | nil =>
    cases begun with
    | false => exact scan_halt (frontier_moreToPair _ _ all u v) nofun
    | true => exact scan_halt (frontier_begun _ _ all u v) nofun
  | cons c left ih =>
    have hc : begun = true → c ≠ v := fun hb heq => hbegun hb (congrArg some heq)
    have hfree : ¬ [u, v] <:+: left := fun hmid => h (hmid.trans (List.suffix_cons c left).isInfix)
    rw [scan_pairWays hall hc]
    refine ih hfree fun hcu heq => ?_
    obtain ⟨cs, rfl⟩ := List.head?_eq_some_iff.1 heq
    obtain rfl := of_decide_eq_true hcu
    exact h (List.prefix_append [c, v] cs).isInfix

theorem matchLength?_bracket (first second : Char) (h : u ≠ v) (hbody : ¬ [u, v] <:+: body)
    (prev : Option Char) :
    (seq (.set (.single first)) (.seq (.set (.single second)) (upToPair all u v))).matchLength? prev
      (first :: second :: (body ++ [u, v]) ++ left) =
        some (first :: second :: (body ++ [u, v])).length := by
  have hbranches (prev next : Option Char) :
      (upToPair all u v).branches prev next = (moreToPair all u v).branches prev next := rfl
  have hscan : scan (some second) (pairWays all u v false) (0+1+1) none (body ++ u :: v :: left) =
      some (0+1+1+body.length+2) := scan_toPair hall h hbody nofun
  rw [pairWays, if_neg Bool.false_ne_true] at hscan
  rw [matchLength?, List.cons_append, scan_seq (CharSet.contains_single_self first),
    List.cons_append, scan_seq (CharSet.contains_single_self second), List.append_assoc,
      scan_congr (hbranches _), List.cons_append,
    List.cons_append, List.nil_append, hscan]
  simp only [List.length_cons, List.length_append, List.length_nil]
  congr 1
  omega

theorem matchLength?_bracket_open (first second : Char) (h : ¬ [u, v] <:+: left)
    (prev : Option Char) :
    (seq (.set (.single first)) (.seq (.set (.single second)) (upToPair all u v))).matchLength? prev
      (first :: second :: left) = none := by
  have hbranches (prev next : Option Char) :
      (upToPair all u v).branches prev next = (moreToPair all u v).branches prev next := rfl
  have hscan : scan (some second) (pairWays all u v false) (0+1+1) none left = none :=
    scan_toPair_none hall h nofun
  rw [pairWays, if_neg Bool.false_ne_true] at hscan
  rw [matchLength?, scan_seq (CharSet.contains_single_self first),
    scan_seq (CharSet.contains_single_self second), scan_congr (hbranches _), hscan]
omit hall

theorem matchLength?_bracket_none {first second : Char} (h : ¬ [first, second] <+: left)
    (prev : Option Char) :
    (seq (.set (.single first)) (.seq (.set (.single second)) r)).matchLength? prev
      left = none := by
  have hne (a c : Char) (hac : c ≠ a) : ∀ b ∈ some c, (CharSet.single a).contains b = false := by
    rintro b ⟨⟩
    exact CharSet.contains_single_ne hac
  match left with
  | [] => exact scan_seq_halt nofun
  | c :: cs =>
    by_cases hc : c = first
    · rw [matchLength?, scan_seq (CharSet.contains_single.2 hc)]
      match cs with
      | [] => exact scan_seq_halt nofun
      | d :: ds =>
        exact scan_seq_halt (hne second d fun hd => h (hc ▸ hd ▸ List.prefix_append [c, d] ds))
    · exact scan_seq_halt (hne first c hc)

end

end Regex

end Descent
