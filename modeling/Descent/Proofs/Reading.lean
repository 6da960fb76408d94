import Descent.Proofs.Unlimited

namespace Descent

namespace Cursor

theorem past_past (c : Cursor) (a b text left : List Char) :
    (c.past a text).past b left = c.past (a ++ b) left := by
  refine Cursor.ext ?_ rfl ?_
  · simp [past]
  · simp [past, Nat.add_assoc]

theorem past_nil {c : Cursor} {left : List Char} (h : c.after = [] ++ left) : c.past [] left = c :=
  Cursor.ext rfl h.symm rfl

theorem forward_eq_past {c : Cursor} {taken left : List Char} (h : c.after = taken ++ left) :
    c.forward taken.length = c.past taken left := by
  rw [forward, h, List.take_left, List.drop_left]

theorem offset_lt_past (c : Cursor) {taken : List Char} (h : taken ≠ []) (left : List Char) :
    c.offset < (c.past taken left).offset := by
  have hpos : 0 < Text.byteLength taken := by
    cases taken with
    | nil => exact absurd rfl h
    | cons a taken =>
      have := Char.utf8Size_pos a
      rw [Text.byteLength_cons]
      omega
  exact Nat.lt_add_of_pos_right hpos

end Cursor

/-- The values that are worth keeping. -/
def Value.kept (vs : List Value) : List Value := vs.filter fun v => !v.isUnit

@[simp] theorem Value.kept_nil : kept [] = [] := rfl

theorem Value.reverse_collect (v : Value) (values vs : List Value) :
    (v.collect values).reverse ++ kept vs = values.reverse ++ kept (v :: vs) := by
  unfold collect kept
  cases h : v.isUnit <;> simp [h]

theorem Value.kept_map {α : Type} {f : α → Value} (h : ∀ a, (f a).isUnit = false) (as : List α) :
    kept (as.map f) = as.map f := by
  refine List.filter_eq_self.2 fun v hv => ?_
  obtain ⟨a, _, rfl⟩ := List.mem_map.1 hv
  rw [h a]
  rfl

namespace Rule

/-- In front of `left`, the rule reads just `taken` and yields `v`. -/
def Reads (s : Store) (r : Rule) (taken left : List Char) (v : Value) : Prop :=
  ∀ c : Cursor, c.after = taken ++ left →
    ∃ span, r.Comes s c (.ok (.success ⟨v, span, c.past taken left⟩))

/-- In front of `text`, the rule fails. -/
def Misses (s : Store) (r : Rule) (text : List Char) : Prop :=
  ∀ c : Cursor, c.after = text → ∃ f, r.Comes s c (.ok (.failure f))

/-- In front of `left`, the rules read `taken` one after the other, and yield the values. -/
inductive ReadsAll (s : Store) : List Rule → List Char → List Char → List Value → Prop
  | nil (left : List Char) : ReadsAll s [] [] left []
  | cons {r : Rule} {rs : List Rule} {taken more left : List Char} {v : Value} {vs : List Value}
    (h : r.Reads s taken (more ++ left) v) (hrest : ReadsAll s rs more left vs) :
    ReadsAll s (r :: rs) (taken ++ more) left (v :: vs)

/-- In front of `left`, the rule reads `taken` part after part until it fails, and yields the
values. -/
inductive Repeats (s : Store) (r : Rule) : List Char → List Char → List Value → Prop
  | stop {left : List Char} (h : r.Misses s left) : Repeats s r [] left []
  | step {taken more left : List Char} {v : Value} {vs : List Value} (hne : taken ≠ [])
    (h : r.Reads s taken (more ++ left) v) (hrest : Repeats s r more left vs) :
    Repeats s r (taken ++ more) left (v :: vs)

/-- Behind an element and in front of `left`, `taken` is what is left of a list with these
delimiters, and the values are those of its elements. -/
inductive Continues (s : Store) (r delimiter : Rule) (trailing : Bool) :
    List Char → List Char → List Value → Prop
  | stop {left : List Char} (h : delimiter.Misses s left) :
      Continues s r delimiter trailing [] left []
  | trail {taken left : List Char} {w : Value} (ht : trailing = true)
    (hd : delimiter.Reads s taken left w)
    (hr : r.Misses s left) : Continues s r delimiter trailing taken left []
  | next {between taken more left : List Char} {v w : Value} {vs : List Value} (hne : taken ≠ [])
    (hd : delimiter.Reads s between (taken ++ (more ++ left)) w)
      (hr : r.Reads s taken (more ++ left) v)
    (hrest : Continues s r delimiter trailing more left vs) :
    Continues s r delimiter trailing (between ++ (taken ++ more)) left (v :: vs)
  | rewind {between left : List Char} {w : Value} (ht : trailing = false)
    (hd : delimiter.Reads s between left w)
    (hr : r.Misses s left) : Continues s r delimiter trailing [] (between ++ left) []

variable {s : Store} {r l t delimiter : Rule} {rs : List Rule}
  {taken more left text : List Char} {v w : Value} {vs : List Value}

theorem reads_token {p : Pattern}
    (h : ∀ c : Cursor, c.after = taken ++ left → p.matchLength? c = some taken.length) :
    (token p).Reads s taken left (.text (String.ofList taken)) := by
  intro c hc
  refine ⟨c.spanTo (c.past taken left), comes_iff_plan.2 ?_⟩
  rw [plan, Plan.token, h c hc]
  simp only [hc, List.take_left, Cursor.forward_eq_past hc]
  exact Plan.comes_done.2 rfl

theorem misses_token {p : Pattern} (h : ∀ c : Cursor, c.after = text → p.matchLength? c = none) :
    (token p).Misses s text := by
  intro c hc
  refine ⟨⟨c.offset, [p.expected]⟩, comes_iff_plan.2 ?_⟩
  rw [plan, Plan.token, h c hc]
  exact Plan.comes_done.2 rfl

theorem reads_literal (s : Store) (text : String) (left : List Char) :
    (literal text).Reads s text.toList left (.text text) := by
  have hreads :
      (token (.literal text)).Reads s text.toList left (.text (String.ofList text.toList)) :=
    reads_token fun c hc => by simp [Pattern.matchLength?, hc]
  rwa [String.ofList_toList] at hreads

theorem misses_literal {word : String} (h : ¬ word.toList <+: text) :
    (literal word).Misses s text := by
  refine misses_token fun c hc => ?_
  simpa [Pattern.matchLength?, hc] using h

theorem reads_endOfInput (s : Store) : endOfInput.Reads s [] [] .unit := by
  intro c hc
  refine ⟨c.spanTo c, comes_iff_plan.2 ?_⟩
  have hend : c.atEnd = true := by rw [Cursor.atEnd, hc]; rfl
  rw [plan, Plan.endOfInput, if_pos hend, Cursor.past_nil hc]
  exact Plan.comes_done.2 rfl

theorem misses_endOfInput (h : text ≠ []) : endOfInput.Misses s text := by
  intro c hc
  refine ⟨⟨c.offset, [.endOfInput]⟩, comes_iff_plan.2 ?_⟩
  have hmore : c.atEnd = false := by rwa [Cursor.atEnd, hc, List.isEmpty_eq_false_iff]
  rw [plan, Plan.endOfInput, hmore]
  exact Plan.comes_done.2 rfl

/-- What a rule reads it does not fail at. -/
theorem Reads.not_misses (h : r.Reads s taken left v) : ¬ r.Misses s (taken ++ left) := by
  intro hmisses
  obtain ⟨_, hreads⟩ := h (.start (taken ++ left)) rfl
  obtain ⟨_, hfails⟩ := hmisses (.start (taken ++ left)) rfl
  cases hreads.unique hfails

theorem choice_comes {before after : List Rule} {c : Cursor}
    (hbefore : ∀ q ∈ before, ∃ f, q.Comes s c (.ok (.failure f))) {m : Match}
    (h : r.Comes s c (.ok (.success m))) (g : Failure) :
    (Plan.choice c g (before ++ r :: after)).Comes s (.ok (.success m)) := by
  induction before generalizing g with
  | nil => exact h.apply.2 (Plan.comes_done.2 rfl)
  | cons q before ih =>
    obtain ⟨f, hf⟩ := hbefore q List.mem_cons_self
    exact hf.apply.2 (ih (fun p hp => hbefore p (List.mem_cons_of_mem q hp)) (g.adopt f))

theorem reads_choice {before after : List Rule} (hbefore : ∀ q ∈ before, q.Misses s (taken ++ left))
    (h : r.Reads s taken left v) : (choice (before ++ r :: after)).Reads s taken left v := by
  intro c hc
  obtain ⟨span, hr⟩ := h c hc
  exact ⟨span, comes_iff_plan.2 (choice_comes (fun q hq => hbefore q hq c hc) hr _)⟩

theorem misses_choice (h : ∀ q ∈ rs, q.Misses s text) : (choice rs).Misses s text := by
  intro c hc
  suffices hplan : ∀ g, ∃ f, (Plan.choice c g rs).Comes s (.ok (.failure f)) by
    obtain ⟨f, hf⟩ := hplan (.bare c.offset)
    exact ⟨f, comes_iff_plan.2 hf⟩
  induction rs with
  | nil => exact fun g => ⟨g, Plan.comes_done.2 rfl⟩
  | cons q rs ih =>
    intro g
    obtain ⟨f, hf⟩ := h q List.mem_cons_self c hc
    obtain ⟨f', hf'⟩ := ih (fun p hp => h p (List.mem_cons_of_mem q hp)) (g.adopt f)
    exact ⟨f', hf.apply.2 hf'⟩

theorem sequence_comes (start : Cursor) (h : ReadsAll s rs taken left vs)
    (values : List Value) {c : Cursor} (hc : c.after = taken ++ left) :
    (Plan.sequence start values c rs).Comes s
      (.ok (.success (.spanning (.list (values.reverse ++ Value.kept vs)) start
        (c.past taken left)))) := by
  induction h generalizing values c with
  | nil left =>
    rw [Cursor.past_nil hc, Value.kept_nil, List.append_nil]
    exact Plan.comes_done.2 rfl
  | @cons r rs taken more left v vs h _ ih =>
    rw [List.append_assoc] at hc
    obtain ⟨span, hr⟩ := h c hc
    have hrest := ih (v.collect values) (c := c.past taken (more ++ left)) rfl
    rw [Cursor.past_past, Value.reverse_collect] at hrest
    exact hr.require.2 hrest

theorem ReadsAll.last (h : r.Reads s taken left v) : ReadsAll s [r] taken left [v] := by
  have hall : ReadsAll s [r] (taken ++ []) left [v] := .cons h (.nil left)
  rwa [List.append_nil] at hall

theorem reads_sequence (h : ReadsAll s rs taken left vs) :
    (sequence rs).Reads s taken left (.list (Value.kept vs)) := by
  intro c hc
  exact ⟨_, comes_iff_plan.2 (sequence_comes c h [] hc)⟩

theorem sequence_stuck {before after : List Rule} (start : Cursor)
    (hbefore : ReadsAll s before taken left vs) (h : r.Misses s left) (values : List Value)
    {c : Cursor} (hc : c.after = taken ++ left) :
    ∃ f, (Plan.sequence start values c (before ++ r :: after)).Comes s (.ok (.failure f)) := by
  induction hbefore generalizing values c with
  | nil left =>
    obtain ⟨f, hf⟩ := h c hc
    exact ⟨f, hf.miss.2 rfl⟩
  | @cons _ _ taken more left _ _ hr _ ih =>
    rw [List.append_assoc] at hc
    obtain ⟨_, hr⟩ := hr c hc
    obtain ⟨f, hf⟩ := ih h _ (c := c.past taken (more ++ left)) rfl
    exact ⟨f, hr.require.2 hf⟩

/-- The rules before the one that fails may have read something. -/
theorem misses_sequence_behind {before : List Rule} (hbefore : ReadsAll s before taken left vs)
    (h : r.Misses s left) (after : List Rule) :
    (sequence (before ++ r :: after)).Misses s (taken ++ left) := by
  intro c hc
  obtain ⟨f, hf⟩ := sequence_stuck c hbefore h [] hc
  exact ⟨f, comes_iff_plan.2 hf⟩

theorem misses_sequence (h : r.Misses s text) (rs : List Rule) :
    (sequence (r :: rs)).Misses s text :=
  misses_sequence_behind (.nil text) h rs

theorem repeated_comes (start : Cursor) (h : Repeats s r taken left vs)
    (values : List Value) {c : Cursor} (hc : c.after = taken ++ left) (turns : Nat)
    (hturns : taken.length ≤ turns) :
    (Plan.repeated r start turns values c).Comes s
      (.ok (.success (.spanning (.list (values.reverse ++ Value.kept vs)) start
        (c.past taken left)))) := by
  induction h generalizing values c turns with
  | stop h =>
    obtain ⟨f, hf⟩ := h c hc
    rw [Cursor.past_nil hc, Value.kept_nil, List.append_nil]
    cases turns <;> exact hf.apply.2 (Plan.comes_done.2 rfl)
  | @step taken more left v vs hne h _ ih =>
    rw [List.append_assoc] at hc
    rw [List.length_append] at hturns
    have hpos := List.length_pos_iff.2 hne
    obtain ⟨turns, rfl⟩ := Nat.exists_eq_succ_of_ne_zero (show turns ≠ 0 by omega)
    obtain ⟨span, hr⟩ := h c hc
    have hrest := ih (v.collect values) (c := c.past taken (more ++ left)) rfl turns (by omega)
    rw [Cursor.past_past, Value.reverse_collect] at hrest
    refine hr.apply.2 ?_
    dsimp only
    rw [if_neg (Nat.not_le.2 (c.offset_lt_past hne _))]
    exact hrest

theorem reads_repeated (h : Repeats s r taken left vs) :
    (repeated r).Reads s taken left (.list (Value.kept vs)) := by
  intro c hc
  refine ⟨_, comes_iff_plan.2 (repeated_comes c h [] hc c.after.length ?_)⟩
  rw [hc, List.length_append]
  exact Nat.le_add_right _ _

theorem round_stop {trailing : Bool} {start c : Cursor} {next : List Value → Cursor → Plan}
    {values : List Value} (h : delimiter.Misses s left) (hc : c.after = left) :
    (Plan.round r delimiter trailing start next values c).Comes s
      (.ok (.success (.spanning (.list values.reverse) start c))) := by
  obtain ⟨f, hf⟩ := h c hc
  exact hf.apply.2 (Plan.comes_done.2 rfl)

theorem round_trail {start c : Cursor} {next : List Value → Cursor → Plan} {values : List Value}
    (hd : delimiter.Reads s taken left w) (hr : r.Misses s left) (hc : c.after = taken ++ left) :
    (Plan.round r delimiter true start next values c).Comes s
      (.ok (.success (.spanning (.list values.reverse) start (c.past taken left)))) := by
  obtain ⟨span, hd⟩ := hd c hc
  obtain ⟨f, hf⟩ := hr (c.past taken left) rfl
  exact hd.apply.2 (hf.apply.2 (Plan.comes_done.2 rfl))

theorem round_rewind {start c : Cursor} {next : List Value → Cursor → Plan} {values : List Value}
    (hd : delimiter.Reads s taken left w) (hr : r.Misses s left) (hc : c.after = taken ++ left) :
    (Plan.round r delimiter false start next values c).Comes s
      (.ok (.success (.spanning (.list values.reverse) start c))) := by
  obtain ⟨span, hd⟩ := hd c hc
  obtain ⟨f, hf⟩ := hr (c.past taken left) rfl
  exact hd.apply.2 (hf.apply.2 (Plan.comes_done.2 rfl))

theorem elements_comes {trailing : Bool} (start : Cursor)
    (h : Continues s r delimiter trailing taken left vs) (values : List Value) {c : Cursor}
    (hc : c.after = taken ++ left) (turns : Nat) (hturns : taken.length ≤ turns) :
    (Plan.elements r delimiter trailing start turns values c).Comes s
      (.ok (.success (.spanning (.list (values.reverse ++ Value.kept vs)) start
        (c.past taken left)))) := by
  induction h generalizing values c turns with
  | stop h =>
    rw [Cursor.past_nil hc, Value.kept_nil, List.append_nil]
    cases turns <;> exact round_stop h hc
  | trail ht hd hr =>
    subst ht
    rw [Value.kept_nil, List.append_nil]
    cases turns <;> exact round_trail hd hr hc
  | rewind ht hd hr =>
    subst ht
    rw [Cursor.past_nil hc, Value.kept_nil, List.append_nil]
    cases turns <;> exact round_rewind hd hr hc
  | @next between taken more left v w vs hne hd hr _ ih =>
    simp only [List.append_assoc] at hc
    simp only [List.length_append] at hturns
    have hpos := List.length_pos_iff.2 hne
    obtain ⟨turns, rfl⟩ := Nat.exists_eq_succ_of_ne_zero (show turns ≠ 0 by omega)
    obtain ⟨span, hd⟩ := hd c hc
    obtain ⟨span', hr⟩ := hr (c.past between (taken ++ (more ++ left))) rfl
    rw [Cursor.past_past] at hr
    have hrest :=
      ih (v.collect values) (c := c.past (between ++ taken) (more ++ left)) rfl turns (by omega)
    rw [Cursor.past_past, Value.reverse_collect, List.append_assoc] at hrest
    refine hd.apply.2 (hr.apply.2 ?_)
    have hadvance : c.offset < (c.past (between ++ taken) (more ++ left)).offset :=
      c.offset_lt_past (by simp [hne]) _
    dsimp only
    rw [if_neg (Nat.not_le.2 hadvance)]
    exact hrest

theorem reads_separated {trailing : Bool} (h : r.Reads s taken (more ++ left) v)
    (hrest : Continues s r delimiter trailing more left vs) :
    (separated r delimiter trailing).Reads s (taken ++ more) left
      (.list (Value.kept (v :: vs))) := by
  intro c hc
  rw [List.append_assoc] at hc
  obtain ⟨span, hr⟩ := h c hc
  have hcomes := elements_comes c hrest (v.collect []) (c := c.past taken (more ++ left)) rfl
    (more ++ left).length (by rw [List.length_append]; exact Nat.le_add_right _ _)
  rw [Cursor.past_past, Value.reverse_collect] at hcomes
  exact ⟨_, comes_iff_plan.2 (hr.require.2 hcomes)⟩

theorem misses_separated (h : r.Misses s text) (delimiter : Rule) (trailing : Bool) :
    (separated r delimiter trailing).Misses s text := by
  intro c hc
  obtain ⟨f, hf⟩ := h c hc
  exact ⟨f, comes_iff_plan.2 (hf.miss.2 rfl)⟩

theorem reads_enclosed {lead trail : List Char} {v₁ v₂ : Value}
    (hl : l.Reads s lead (taken ++ (trail ++ left)) v₁) (hr : r.Reads s taken (trail ++ left) v)
    (ht : t.Reads s trail left v₂) :
    (enclosed l r t).Reads s (lead ++ (taken ++ trail)) left v := by
  intro c hc
  simp only [List.append_assoc] at hc
  obtain ⟨_, hl⟩ := hl c hc
  obtain ⟨_, hr⟩ := hr (c.past lead (taken ++ (trail ++ left))) rfl
  obtain ⟨_, ht⟩ := ht ((c.past lead (taken ++ (trail ++ left))).past taken (trail ++ left)) rfl
  rw [Cursor.past_past, Cursor.past_past, List.append_assoc] at ht
  rw [Cursor.past_past] at hr
  refine ⟨c.spanTo (c.past (lead ++ (taken ++ trail)) left), comes_iff_plan.2 ?_⟩
  exact hl.require.2 (hr.require.2 (ht.require.2 (Plan.comes_done.2 rfl)))

theorem misses_enclosed {lead : List Char} (hl : l.Reads s lead left w)
    (hr : r.Misses s left) (t : Rule) : (enclosed l r t).Misses s (lead ++ left) := by
  intro c hc
  obtain ⟨_, hl⟩ := hl c hc
  obtain ⟨f, hf⟩ := hr (c.past lead left) rfl
  exact ⟨f, comes_iff_plan.2 (hl.require.2 (hf.miss.2 rfl))⟩

theorem misses_enclosed_left (h : l.Misses s text) (r t : Rule) :
    (enclosed l r t).Misses s text := by
  intro c hc
  obtain ⟨f, hf⟩ := h c hc
  exact ⟨f, comes_iff_plan.2 (hf.miss.2 rfl)⟩

theorem misses_enclosed_right {lead : List Char} (hl : l.Reads s lead (taken ++ left) w)
    (hr : r.Reads s taken left v) (ht : t.Misses s left) :
    (enclosed l r t).Misses s (lead ++ (taken ++ left)) := by
  intro c hc
  obtain ⟨_, hl⟩ := hl c hc
  obtain ⟨_, hr⟩ := hr (c.past lead (taken ++ left)) rfl
  obtain ⟨f, hf⟩ := ht ((c.past lead (taken ++ left)).past taken left) rfl
  exact ⟨f, comes_iff_plan.2 (hl.require.2 (hr.require.2 (hf.miss.2 rfl)))⟩

theorem reads_mapped (h : r.Reads s taken left v) {f : Value → Except String Value}
    (hf : f v = .ok w) : (mapped r f).Reads s taken left w := by
  intro c hc
  obtain ⟨span, hr⟩ := h c hc
  refine ⟨span, comes_iff_plan.2 (hr.require.2 ?_)⟩
  dsimp only
  rw [hf]
  exact Plan.comes_done.2 rfl

theorem misses_mapped (h : r.Misses s text) (f : Value → Except String Value) :
    (mapped r f).Misses s text := by
  intro c hc
  obtain ⟨g, hg⟩ := h c hc
  exact ⟨g, comes_iff_plan.2 (hg.miss.2 rfl)⟩

theorem reads_discard (h : r.Reads s taken left v) : (discard r).Reads s taken left .unit := by
  intro c hc
  obtain ⟨span, hr⟩ := h c hc
  exact ⟨span, comes_iff_plan.2 (hr.require.2 (Plan.comes_done.2 rfl))⟩

theorem misses_discard (h : r.Misses s text) : (discard r).Misses s text := by
  intro c hc
  obtain ⟨g, hg⟩ := h c hc
  exact ⟨g, comes_iff_plan.2 (hg.miss.2 rfl)⟩

theorem reads_optional (h : r.Reads s taken left v) : (optional r).Reads s taken left v := by
  intro c hc
  obtain ⟨span, hr⟩ := h c hc
  exact ⟨span, comes_iff_plan.2 (hr.apply.2 (Plan.comes_done.2 rfl))⟩

theorem reads_optional_none (h : r.Misses s left) : (optional r).Reads s [] left .unit := by
  intro c hc
  obtain ⟨f, hf⟩ := h c hc
  rw [Cursor.past_nil hc]
  exact ⟨_, comes_iff_plan.2 (hf.apply.2 (Plan.comes_done.2 rfl))⟩

theorem reads_label (h : r.Reads s taken left v) (name : String) :
    (label r name).Reads s taken left v := by
  intro c hc
  obtain ⟨span, hr⟩ := h c hc
  exact ⟨span, comes_iff_plan.2 (hr.apply.2 (Plan.comes_done.2 rfl))⟩

theorem misses_label (h : r.Misses s text) (name : String) : (label r name).Misses s text := by
  intro c hc
  obtain ⟨f, hf⟩ := h c hc
  by_cases hoffset : f.offset = c.offset
  · refine ⟨⟨c.offset, [.label name]⟩, comes_iff_plan.2 (hf.apply.2 ?_)⟩
    dsimp only
    rw [if_pos hoffset]
    exact Plan.comes_done.2 rfl
  · refine ⟨f, comes_iff_plan.2 (hf.apply.2 ?_)⟩
    dsimp only
    rw [if_neg hoffset]
    exact Plan.comes_done.2 rfl

/-- A rule that fails in front of a text does not parse it. -/
theorem Composed.parseAll_of_misses (hs : s.Composed) (hr : r.Composed) {text : String}
    (h : r.Misses s text.toList) : ∃ position expected found,
      r.parseAllWith s text .unbounded = some (.error (.mismatch position expected found)) := by
  obtain ⟨_, _, _, hfails, _⟩ := h (.start text.toList) rfl
  exact ⟨_, _, _, (hr.parse_of_failure hs hfails).2⟩

/-- A rule that reads all of a text parses it. -/
theorem Composed.parseAll_of_reads (hs : s.Composed) (hr : r.Composed) {text : String}
    (h : r.Reads s text.toList [] v) : r.parseAllWith s text .unbounded = some (.ok v) := by
  obtain ⟨_, _, _, hreads, _⟩ := h (.start text.toList) (List.append_nil _).symm
  rw [(hr.parse_of_success hs hreads).2, complete_atEnd rfl]

end Rule

end Descent
