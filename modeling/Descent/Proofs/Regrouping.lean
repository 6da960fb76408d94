import Descent.Proofs.Inlining

namespace Descent

namespace Failure

theorem adopt_assoc (f g h : Failure) : (f.adopt g).adopt h = f.adopt (g.adopt h) := by
  simp only [adopt, pool_assoc]

theorem adopt_bare (f : Failure) (n : Nat) : f.adopt (bare n) = f := rfl

theorem adopt_eq_self {f g : Failure} (h : g.expected ⊆ f.expected) : f.adopt g = f := by
  rw [adopt, pool_eq_self fun e he => h he]

end Failure

theorem Rule.Composed.yields_within {s : Store} (hs : s.Composed) {r : Rule} (hr : r.Composed)
    {c : Cursor} {step : Step} {g : Option Failure} (h : r.Yields s c step g) :
    Step.Within c step := by
  obtain ⟨_, ⟨room, hroom⟩, _⟩ := h
  exact (hr.trace_within hs room c).2.2 step (congrArg Trace.step hroom)

namespace Plan

variable {s : Store} {c : Cursor} {f : Failure} {xs ys zs : List Rule} {step : Step}
  {k : Option Failure}

/-- Goes on from a failure; a match is the end. -/
def otherwise (next : Failure → Plan) : Outcome → Plan
  | .success m => succeed m
  | .failure f => next f

/-- Goes on from a match; a failure is the end. -/
def onMatch (next : Match → Plan) : Outcome → Plan
  | .success m => next m
  | .failure f => fail f

theorem yields_follow_congr {p p' : Plan} {next next' : Outcome → Plan}
    (hp : ∀ step k, p.Yields s step k ↔ p'.Yields s step k)
    (hnext : ∀ o k, (next o).Yields s step k ↔ (next' o).Yields s step k) :
    (p.follow next).Yields s step k ↔ (p'.follow next').Yields s step k := by
  rw [yields_follow, yields_follow]
  exact Finding.andThen_congr hp hnext

theorem follow_onMatch_congr {next next' : Match → Plan} (p : Plan) (h : ∀ m, next m = next' m) :
    p.follow (onMatch next) = p.follow (onMatch next') := by
  rw [funext h]

theorem follow_onMatch (p : Plan) (next rest : Match → Plan) :
    (p.follow (onMatch next)).follow (onMatch rest) =
    p.follow (onMatch fun m => (next m).follow (onMatch rest)) := by
  rw [follow_assoc]
  congr
  funext o
  cases o <;> rfl

theorem choice_cons (c : Cursor) (f : Failure) (r : Rule) (rs : List Rule) :
    choice c f (r :: rs) = apply r c (otherwise fun g => choice c (f.adopt g) rs) := by
  rw [choice]
  congr

theorem choice_append (c : Cursor) (f : Failure) (xs ys : List Rule) :
    choice c f (xs ++ ys) = (choice c f xs).follow (otherwise fun g => choice c g ys) := by
  induction xs generalizing f with
  | nil => rfl
  | cons r rs ih =>
    rw [List.cons_append, choice_cons, choice_cons, follow]
    congr
    funext o
    cases o with
    | success m => rfl
    | failure g => exact ih _

/-- What was pooled before the alternatives may be pooled behind them. -/
theorem choice_adopt (c : Cursor) (f g : Failure) (rs : List Rule) :
    choice c (f.adopt g) rs = (choice c g rs).follow (otherwise fun h => fail (f.adopt h)) := by
  induction rs generalizing g with
  | nil => rfl
  | cons r rs ih =>
    rw [choice_cons, choice_cons, follow]
    congr
    funext o
    cases o with
    | success m => rfl
    | failure h =>
      have hassoc := Failure.adopt_assoc f g h
      simp only [otherwise, hassoc]
      exact ih _

/-- The alternatives of a choice that is itself one, in its place. -/
theorem choice_written_out (s : Store) (c : Cursor) (f : Failure) (ys zs : List Rule) :
    ((Rule.choice ys).plan s c).follow (otherwise fun g => choice c (f.adopt g) zs) =
      choice c f (ys ++ zs) := by
  have hbehind := choice_adopt c f (.bare c.offset) ys
  rw [Failure.adopt_bare] at hbehind
  rw [choice_append, hbehind, follow_assoc]
  refine congrArg (fun next => follow next (choice c (.bare c.offset) ys)) (funext fun o => ?_)
  cases o <;> rfl

/-- Whatever alternatives fail with, the record has it by the time that they have all failed. -/
theorem choice_covers (hs : s.Composed) (hxs : ∀ r ∈ xs, r.Composed) (ho : f.offset = c.offset)
    {k₀ : Option Failure} (hf : Failure.Covers k₀ (some f) ∨
      f.expected = [] ∧ xs ≠ []) {g : Failure}
    (h : (choice c f xs).Yields s (.ok (.failure g)) k) :
    Failure.Covers (Failure.join k₀ k) (some g) := by
  induction xs generalizing f k₀ k with
  | nil =>
    obtain ⟨hfailure, rfl⟩ := yields_done.1 h
    cases hfailure
    rw [Failure.join_none_right]
    exact hf.resolve_right fun hnil => hnil.2 rfl
  | cons r rs ih =>
    rw [choice_cons, yields_apply] at h
    cases h with
    | @onward o _ g₁ k₁ hfirst hrest =>
      cases o with
      | success m => cases (yields_done.1 hrest).1
      | failure g' =>
        have hle : c.offset ≤ g'.offset :=
          ((hxs r List.mem_cons_self).yields_within hs hfirst).offset_le
        have hrecorded : Failure.Covers (Failure.join k₀ g₁) (some g') := hfirst.covers.join_left k₀
        have hbefore : f.expected = [] ∨ Failure.Covers (Failure.join k₀ g₁) (some f) := by
          rcases hf with hf | ⟨hnil, _⟩
          · exact .inr (hf.join_right g₁)
          · exact .inl hnil
        have hpooled := hrecorded.adopt (ho ▸ hle) hbefore
        have hall := ih (fun q hq => hxs q (List.mem_cons_of_mem _ hq)) (f := f.adopt g') ho
            (.inl hpooled) hrest
        rwa [Failure.join_assoc] at hall

/-- A choice from anything adds nothing of its own. -/
theorem choice_addsNothing (hs : s.Composed) (hys : ∀ r ∈ ys, r.Composed) (hne : ys ≠ [])
    (c : Cursor) : AddsNothing s (.choice ys) c := by
  intro f k h
  have hcovers : Failure.Covers (Failure.join none k) (some f) :=
    choice_covers hs hys rfl (.inr ⟨rfl, hne⟩) h
  rwa [Failure.join_none_left] at hcovers

theorem choice_nested (hs : s.Composed) (hys : ∀ r ∈ ys, r.Composed) (c : Cursor) (f : Failure)
    (xs zs : List Rule) :
    Finding.Agree (ys ≠ []) ((choice c f (xs ++ [.choice ys] ++ zs)).Yields s)
      ((choice c f (xs ++ ys ++ zs)).Yields s) := by
  have hinner (g : Failure) :
      Finding.Agree (ys ≠ []) ((choice c g (.choice ys :: zs)).Yields s)
        ((choice c g (ys ++ zs)).Yields s) := by
    have hout := agree_written_out s (.choice ys) c (otherwise fun h => choice c (g.adopt h) zs)
    rw [choice_written_out] at hout
    rw [choice_cons]
    exact ⟨hout.steps, fun hne => hout.records (choice_addsNothing hs hys hne c)⟩
  have hbehind (o : Outcome) : Finding.Agree (ys ≠ [])
      ((otherwise (fun g => choice c g (.choice ys :: zs)) o).Yields s)
      ((otherwise (fun g => choice c g (ys ++ zs)) o).Yields s) := by
    cases o with
    | success m => exact Finding.agree_of_iff fun _ _ => Iff.rfl
    | failure g => exact hinner g
  rw [List.append_assoc, List.append_assoc, choice_append, choice_append]
  exact agree_follow (choice c f xs) hbehind

/-- Each of the alternatives that have all failed did so, with a record and expectations that are no
news by then. -/
theorem choice_tried {g : Failure} (h : (choice c f xs).Yields s (.ok (.failure g)) k) :
    f.expected ⊆ g.expected ∧
    ∀ r ∈ xs, ∃ f' k', r.Yields s c (.ok (.failure f')) k' ∧ f'.expected ⊆ g.expected ∧
      Failure.Covers k k' := by
  induction xs generalizing f k with
  | nil =>
    obtain ⟨hfailure, _⟩ := yields_done.1 h
    cases hfailure
    exact ⟨fun e he => he, fun r hr => absurd hr List.not_mem_nil⟩
  | cons q rs ih =>
    rw [choice_cons, yields_apply] at h
    cases h with
    | @onward o _ k₁ k₂ hfirst hrest =>
      cases o with
      | success m => cases (yields_done.1 hrest).1
      | failure g' =>
        obtain ⟨hpooled, htried⟩ := ih hrest
        have hbefore : f.expected ⊆ g.expected := fun e he => hpooled (mem_pool.2 (.inl he))
        have hown : g'.expected ⊆ g.expected := fun e he => hpooled (mem_pool.2 (.inr he))
        refine ⟨hbefore, fun r hr => ?_⟩
        by_cases hq : r = q
        · rw [hq]
          exact ⟨g', k₁, hfirst, hown, Failure.covers_join_self k₁ k₂⟩
        · obtain ⟨f', k', hf', hsub, hcovers⟩ := htried r (List.mem_of_ne_of_mem hq hr)
          exact ⟨f', k', hf', hsub, hcovers.join_left k₁⟩

/-- An alternative that has failed before fails again, and nothing comes of it. -/
theorem choice_again {r : Rule} (hr : r ∈ xs) :
    (choice c f (xs ++ [r] ++ zs)).Yields s step k ↔ (choice c f (xs ++ zs)).Yields s step k := by
  have hagain {g : Failure} {k₁ : Option Failure}
      (hxs : (choice c f xs).Yields s (.ok (.failure g)) k₁)
      (l : Option Failure) :
      (∃ k₂, (choice c g (r :: zs)).Yields s step k₂ ∧ l = Failure.join k₁ k₂) ↔
        ∃ k₂, (choice c g zs).Yields s step k₂ ∧ l = Failure.join k₁ k₂ := by
    obtain ⟨f', k', hf', hsub, hcovers⟩ := (choice_tried hxs).2 r hr
    have hpooled : g.adopt f' = g := Failure.adopt_eq_self hsub
    have hrecord (k₂ : Option Failure) :
        Failure.join k₁ (Failure.join k' k₂) = Failure.join k₁ k₂ := by
      rw [← Failure.join_assoc, hcovers]
    simp only [choice_cons, yields_apply_of hf', otherwise, hpooled]
    constructor
    · intro h
      obtain ⟨_, ⟨k₂, hzs, rfl⟩, rfl⟩ := h
      exact ⟨k₂, hzs, hrecord k₂⟩
    · intro h
      obtain ⟨k₂, hzs, rfl⟩ := h
      exact ⟨_, ⟨k₂, hzs, rfl⟩, (hrecord k₂).symm⟩
  rw [List.append_assoc, choice_append, choice_append, yields_follow, yields_follow]
  refine Finding.andThen_congr_behind fun o k₁ hxs l => ?_
  cases o with
  | success m => rfl
  | failure g => exact hagain hxs l

theorem sequence_cons (start : Cursor) (values : List Value) (c : Cursor) (r : Rule)
    (rs : List Rule) : sequence start values c (r :: rs) =
      apply r c (onMatch fun m => sequence start (m.value.collect values) m.rest rs) := by
  rw [sequence, require]
  congr

theorem sequence_append (start : Cursor) (values : List Value) (c : Cursor) (xs ys : List Rule) :
    sequence start values c (xs ++ ys) = (sequence start values c xs).follow
      (onMatch fun m => sequence start m.value.toList.reverse m.rest ys) := by
  induction xs generalizing values c with
  | nil =>
    have hvalues : values = (Value.list values.reverse).toList.reverse := by simp [Value.toList]
    rw [List.nil_append]
    exact congrArg (fun vs => sequence start vs c ys) hvalues
  | cons r rs ih =>
    rw [List.cons_append, sequence_cons, sequence_cons, follow]
    congr
    funext o
    cases o with
    | success m => exact ih _ _
    | failure f => rfl

/-- What was collected before the rules may be put in front of what they collect. -/
theorem sequence_collected (start start' : Cursor) (values vs : List Value) (c : Cursor)
    (rs : List Rule) : sequence start (vs ++ values) c rs = (sequence start' vs c rs).follow
      (onMatch fun m => consume (.list (values.reverse ++ m.value.toList)) start m.rest) := by
  induction rs generalizing vs c with
  | nil =>
    have hvalues : (vs ++ values).reverse = values.reverse ++ (Value.list vs.reverse).toList := by
      simp [Value.toList]
    exact congrArg (fun vs => consume (.list vs) start c) hvalues
  | cons r rs ih =>
    have hcollect (v : Value) : v.collect (vs ++ values) = v.collect vs ++ values := by
      unfold Value.collect
      split <;> rfl
    rw [sequence_cons, sequence_cons, follow]
    congr
    funext o
    cases o with
    | success m =>
      simp only [onMatch, hcollect]
      exact ih _ _
    | failure f => rfl

/-- A sequence in two parts. -/
theorem plan_sequence_append (s : Store) (c : Cursor) (xs ys : List Rule) :
    (Rule.sequence (xs ++ ys)).plan s c = ((Rule.sequence xs).plan s c).follow
      (onMatch fun m => ((Rule.sequence ys).plan s m.rest).follow
        (onMatch fun n => consume (.list (m.value.toList ++ n.value.toList)) c n.rest)) := by
  simp only [Rule.plan]
  rw [sequence_append]
  refine follow_onMatch_congr _ fun m => ?_
  have hbehind := sequence_collected c m.rest m.value.toList.reverse [] m.rest ys
  rwa [List.nil_append, List.reverse_reverse] at hbehind

/-- A sequence fails with what one of its rules fails with, and adds nothing of its own. -/
theorem sequence_addsNothing (s : Store) (ys : List Rule) (c : Cursor) :
    AddsNothing s (.sequence ys) c := by
  have hrules (start : Cursor) (values : List Value) (d : Cursor) (f : Failure) (k : Option Failure)
      (h : (sequence start values d ys).Yields s (.ok (.failure f)) k) :
      Failure.Covers k (some f) := by
    induction ys generalizing values d k with
    | nil => cases (yields_done.1 h).1
    | cons r rs ih =>
      rw [sequence_cons, yields_apply] at h
      cases h with
      | @onward o _ k₁ k₂ hfirst hrest =>
        cases o with
        | success m => exact (ih _ _ _ hrest).join_left k₁
        | failure f' =>
          obtain ⟨hfailure, rfl⟩ := yields_done.1 hrest
          cases hfailure
          rw [Failure.join_none_right]
          exact hfirst.covers
  exact fun f k h => hrules c [] c f k h

/-- What a plan comes to without a match is no matter of what is made of a match. -/
theorem yields_onMatch_congr {p : Plan} {next next' : Match → Plan}
    (h : ∀ m k, (next m).Yields s step k ↔ (next' m).Yields s step k) :
    (p.follow (onMatch next)).Yields s step k ↔ (p.follow (onMatch next')).Yields s step k := by
  have hnext (o : Outcome) (k : Option Failure) :
      (onMatch next o).Yields s step k ↔ (onMatch next' o).Yields s step k := by
    cases o with
    | success m => exact h m k
    | failure f => rfl
  exact yields_follow_congr (fun _ _ => Iff.rfl) hnext

theorem yields_onMatch_success {p : Plan} {next : Match → Plan} {m : Match} :
    (p.follow (onMatch next)).Yields s (.ok (.success m)) k ↔
      ∃ l k₁ k₂, p.Yields s (.ok (.success l)) k₁ ∧
      (next l).Yields s (.ok (.success m)) k₂ ∧ k = Failure.join k₁ k₂ := by
  rw [yields_follow]
  constructor
  · intro h
    cases h with
    | @onward o _ k₁ k₂ hfirst hnext =>
      cases o with
      | success l => exact ⟨l, k₁, k₂, hfirst, hnext, rfl⟩
      | failure f => cases (yields_done.1 hnext).1
  · intro h
    obtain ⟨l, k₁, k₂, hfirst, hnext, rfl⟩ := h
    exact .onward hfirst hnext

/-- A sequence is what it collects, from where it begins. -/
theorem plan_sequence_eq (s : Store) (c : Cursor) (xs : List Rule) : (Rule.sequence xs).plan s c =
    ((Rule.sequence xs).plan s c).follow
      (onMatch fun m => consume (.list m.value.toList) c m.rest) :=
  sequence_collected c c [] [] c xs

/-- Three sequences one behind the other, and the values that `yield` makes of what they collect. -/
def inSeries (s : Store) (xs ys zs : List Rule)
    (yield : List Value → List Value → List Value → List Value) (c : Cursor) : Plan :=
  ((Rule.sequence xs).plan s c).follow (onMatch fun l =>
    ((Rule.sequence ys).plan s l.rest).follow (onMatch fun m =>
      ((Rule.sequence zs).plan s m.rest).follow (onMatch fun n =>
        consume (.list (yield l.value.toList m.value.toList n.value.toList)) c n.rest)))

theorem sequence_flat (s : Store) (c : Cursor) (xs ys zs : List Rule) :
    (Rule.sequence (xs ++ ys ++ zs)).plan s c =
      inSeries s xs ys zs (fun us vs ws => us ++ vs ++ ws) c := by
  rw [List.append_assoc, plan_sequence_append, inSeries]
  refine follow_onMatch_congr _ fun l => ?_
  rw [plan_sequence_append, follow_onMatch]
  refine follow_onMatch_congr _ fun m => ?_
  rw [follow_onMatch]
  refine follow_onMatch_congr _ fun n => ?_
  rw [List.append_assoc]
  rfl

/-- A sequence in front, written out: what it collects is the first value. -/
theorem sequence_in_front (ys zs : List Rule) :
    ((Rule.sequence (.sequence ys :: zs)).plan s c).Yields s step k ↔
      (((Rule.sequence ys).plan s c).follow
        (onMatch fun m => ((Rule.sequence zs).plan s m.rest).follow (onMatch fun n =>
          consume (.list (.list m.value.toList :: n.value.toList)) c n.rest))).Yields s step k := by
  have hbehind (m : Match) :
      sequence c [.list m.value.toList] m.rest zs = ((Rule.sequence zs).plan s m.rest).follow
        (onMatch fun n => consume (.list (.list m.value.toList :: n.value.toList)) c n.rest) :=
    sequence_collected c m.rest [.list m.value.toList] [] m.rest zs
  have hout := agree_written_out s (.sequence ys) c
    (onMatch fun m => sequence c (m.value.collect []) m.rest zs)
  rw [plan_sequence_eq, follow_onMatch] at hout
  rw [Rule.plan, sequence_cons, hout.records (sequence_addsNothing s ys c), ← funext hbehind]
  rfl

theorem sequence_nested (xs ys zs : List Rule) :
    ((Rule.sequence (xs ++ [.sequence ys] ++ zs)).plan s c).Yields s step k ↔
      (inSeries s xs ys zs (fun us vs ws => us ++ [.list vs] ++ ws) c).Yields s step k := by
  rw [List.append_assoc, plan_sequence_append, inSeries]
  refine yields_onMatch_congr fun l k => ?_
  refine (yields_follow_congr (fun _ _ => sequence_in_front ys zs) fun _ _ => Iff.rfl).trans ?_
  rw [follow_onMatch]
  refine yields_onMatch_congr fun m k => ?_
  rw [follow_onMatch]
  refine yields_onMatch_congr fun n k => ?_
  rw [List.append_assoc]
  rfl

/-- Without a match it is no matter which values are made. -/
theorem yields_inSeries_stop {yield yield' : List Value → List Value → List Value → List Value}
    (h : ∀ m, step ≠ .ok (.success m)) :
    (inSeries s xs ys zs yield c).Yields s step k ↔
      (inSeries s xs ys zs yield' c).Yields s step k := by
  have hend (v v' : Value) (d : Cursor) (k : Option Failure) :
      (consume v c d).Yields s step k ↔ (consume v' c d).Yields s step k := by
    constructor
    · intro hmatch
      exact absurd (yields_done.1 hmatch).1 (h _)
    · intro hmatch
      exact absurd (yields_done.1 hmatch).1 (h _)
  exact yields_onMatch_congr fun l k =>
    yields_onMatch_congr fun m k => yields_onMatch_congr fun n k => hend _ _ _ k

/-- What a sequence matches is the list of what it collects. -/
theorem sequence_success {m : Match}
    (h : ((Rule.sequence xs).plan s c).Yields s (.ok (.success m)) k) :
    ∃ us d, m = .spanning (.list us) c d := by
  rw [plan_sequence_eq, yields_onMatch_success] at h
  obtain ⟨l, _, _, _, hend, _⟩ := h
  obtain ⟨hmatch, _⟩ := yields_done.1 hend
  cases hmatch
  exact ⟨l.value.toList, l.rest, rfl⟩

/-- A match of three sequences in series is a match of each. -/
theorem yields_inSeries_success {m : Match}
    {yield : List Value → List Value → List Value → List Value} :
    (inSeries s xs ys zs yield c).Yields s (.ok (.success m)) k ↔ ∃ us vs ws p q d k₁ k₂ k₃,
      ((Rule.sequence xs).plan s c).Yields s (.ok (.success (.spanning (.list us) c p))) k₁ ∧
      ((Rule.sequence ys).plan s p).Yields s (.ok (.success (.spanning (.list vs) p q))) k₂ ∧
      ((Rule.sequence zs).plan s q).Yields s (.ok (.success (.spanning (.list ws) q d))) k₃ ∧
      m = .spanning (.list (yield us vs ws)) c d ∧ k = Failure.join k₁ (Failure.join k₂ k₃) := by
  rw [inSeries, yields_onMatch_success]
  constructor
  · intro h
    obtain ⟨l, k₁, _, hl, hbehind, rfl⟩ := h
    obtain ⟨m', k₂, _, hm, hlast, rfl⟩ := yields_onMatch_success.1 hbehind
    obtain ⟨n, k₃, _, hn, hend, rfl⟩ := yields_onMatch_success.1 hlast
    obtain ⟨hmatch, rfl⟩ := yields_done.1 hend
    cases hmatch
    obtain ⟨us, p, rfl⟩ := sequence_success hl
    obtain ⟨vs, q, rfl⟩ := sequence_success hm
    obtain ⟨ws, d, rfl⟩ := sequence_success hn
    rw [Failure.join_none_right]
    exact ⟨us, vs, ws, p, q, d, k₁, k₂, k₃, hl, hm, hn, rfl, rfl⟩
  · intro h
    obtain ⟨us, vs, ws, p, q, d, k₁, k₂, k₃, hl, hm, hn, rfl, rfl⟩ := h
    refine ⟨_, k₁, _, hl, yields_onMatch_success.2 ⟨_, k₂, _, hm, ?_, rfl⟩, rfl⟩
    exact yields_onMatch_success.2 ⟨_, k₃, none, hn, yields_done.2 ⟨rfl, rfl⟩,
      (Failure.join_none_right k₃).symm⟩

end Plan

namespace Rule

variable {s : Store} {c d : Cursor} {xs ys zs : List Rule} {us vs ws : List Value} {step : Step}
  {b : Budget} {g k : Option Failure}

/-- Each of three sequences goes on where the one before it stops; they collect `us`, `vs` and
`ws`. -/
def InParts (s : Store) (xs ys zs : List Rule) (c : Cursor) (us vs ws : List Value) (d : Cursor) :
    Prop :=
  ∃ p q, (sequence xs).Gives s c (.ok (.success (.spanning (.list us) c p))) ∧
    (sequence ys).Gives s p (.ok (.success (.spanning (.list vs) p q))) ∧
    (sequence zs).Gives s q (.ok (.success (.spanning (.list ws) q d)))

theorem InParts.unique {us' vs' ws' : List Value} {d' : Cursor}
    (h : InParts s xs ys zs c us vs ws d) (h' : InParts s xs ys zs c us' vs' ws' d') :
    us' = us ∧ vs' = vs ∧ ws' = ws ∧ d' = d := by
  have hsame {rs : List Rule} {ts ts' : List Value} {c d d' : Cursor}
      (h : (sequence rs).Gives s c (.ok (.success (.spanning (.list ts) c d))))
      (h' : (sequence rs).Gives s c (.ok (.success (.spanning (.list ts') c d')))) :
      ts' = ts ∧ d' = d := by
    have heq := h.unique h'
    simp only [Except.ok.injEq, Outcome.success.injEq] at heq
    exact ⟨Value.list.inj (congrArg Match.value heq), congrArg Match.rest heq⟩
  obtain ⟨p, q, hxs, hys, hzs⟩ := h
  obtain ⟨p', q', hxs', hys', hzs'⟩ := h'
  obtain ⟨rfl, rfl⟩ := hsame hxs hxs'
  obtain ⟨rfl, rfl⟩ := hsame hys hys'
  obtain ⟨rfl, rfl⟩ := hsame hzs hzs'
  exact ⟨rfl, rfl, rfl, rfl⟩

section

variable (hs : s.Composed) (hxs : ∀ r ∈ xs, r.Composed) (hys : ∀ r ∈ ys, r.Composed)
  (hzs : ∀ r ∈ zs, r.Composed)
include hs hxs hys hzs

/-- A match in series has its parts, and is as well one with other values made of them. -/
theorem exists_inParts {yield : List Value → List Value → List Value → List Value} {m : Match}
    (h : (Plan.inSeries s xs ys zs yield c).Yields s (.ok (.success m)) k) :
    ∃ us vs ws, InParts s xs ys zs c us vs ws m.rest ∧
      m = .spanning (.list (yield us vs ws)) c m.rest ∧
      ∀ yield', (Plan.inSeries s xs ys zs yield' c).Yields s
        (.ok (.success (.spanning (.list (yield' us vs ws)) c m.rest))) k := by
  have hgives {rs : List Rule} (hrs : ∀ r ∈ rs, r.Composed) {c : Cursor} {m : Match}
      {k : Option Failure}
      (h : ((sequence rs).plan s c).Yields s (.ok (.success m)) k) :
      (sequence rs).Gives s c (.ok (.success m)) :=
    ((Composed.sequence hrs).gives_iff hs).2 ⟨_, yields_iff_plan.2 ⟨k, h, rfl⟩⟩
  obtain ⟨us, vs, ws, p, q, d, k₁, k₂, k₃, hl, hm, hn, rfl, rfl⟩ := Plan.yields_inSeries_success.1 h
  refine ⟨us, vs, ws, ⟨p, q, hgives hxs hl, hgives hys hm, hgives hzs hn⟩, rfl, fun yield' => ?_⟩
  exact Plan.yields_inSeries_success.2 ⟨us, vs, ws, p, q, d, k₁, k₂, k₃, hl, hm, hn, rfl, rfl⟩

theorem InParts.yields_inSeries (h : InParts s xs ys zs c us vs ws d)
    (yield yield' : List Value → List Value → List Value → List Value) :
    (Plan.inSeries s xs ys zs yield c).Yields s
      (.ok (.success (.spanning (.list (yield us vs ws)) c d))) k ↔
      (Plan.inSeries s xs ys zs yield' c).Yields s
        (.ok (.success (.spanning (.list (yield' us vs ws)) c d))) k := by
  have hswap (yield yield' : List Value → List Value → List Value → List Value)
      (hmatch : (Plan.inSeries s xs ys zs yield c).Yields s
        (.ok (.success (.spanning (.list (yield us vs ws)) c d))) k) :
      (Plan.inSeries s xs ys zs yield' c).Yields s
        (.ok (.success (.spanning (.list (yield' us vs ws)) c d))) k := by
    obtain ⟨us', vs', ws', hparts, _, hother⟩ := exists_inParts hs hxs hys hzs hmatch
    obtain ⟨rfl, rfl, rfl, _⟩ := h.unique hparts
    exact hother yield'
  exact ⟨hswap yield yield', hswap yield' yield⟩

end

theorem exists_leaves_iff {r : Rule} (hs : s.Composed) (hr : r.Composed)
    (hb : b.limits = .unbounded) :
    (∃ g, r.Leaves s c b step g) ↔ ∃ k, (r.plan s c).Yields s step k := by
  simp only [hr.leaves_iff hs hb, yields_iff_plan]
  constructor
  · intro h
    obtain ⟨_, _, ⟨k, hk, _⟩, _⟩ := h
    exact ⟨k, hk⟩
  · intro h
    obtain ⟨k, hk⟩ := h
    exact ⟨_, _, ⟨k, hk, rfl⟩, rfl⟩

/-- On an account without limits, plans that yield the same leave the same. -/
theorem leaves_congr {r r' : Rule} {step' : Step} (hs : s.Composed) (hr : r.Composed)
    (hr' : r'.Composed) (hb : b.limits = .unbounded) (hfailure : step'.failure? = step.failure?)
    (h : ∀ k, (r.plan s c).Yields s step k ↔ (r'.plan s c).Yields s step' k) :
    r.Leaves s c b step g ↔ r'.Leaves s c b step' g := by
  simp only [hr.leaves_iff hs hb, hr'.leaves_iff hs hb, yields_iff_plan, h, hfailure]

/-- Without limits, whatever the account: a choice inside a choice may be written out there, and
leaves the same record unless it is a choice from nothing; an alternative need not be tried again; a
sequence inside a sequence may be written out there, and then the values are spliced in that it
collects. -/
theorem regrouped (hs : s.Composed) (hxs : ∀ r ∈ xs, r.Composed) (hys : ∀ r ∈ ys, r.Composed)
    (hzs : ∀ r ∈ zs, r.Composed) (hb : b.limits = .unbounded) (c : Cursor) :
    (∀ step, (∃ g, (choice (xs ++ [choice ys] ++ zs)).Leaves s c b step g) ↔
      ∃ g, (choice (xs ++ ys ++ zs)).Leaves s c b step g) ∧
    (ys ≠ [] → ∀ step g,
      (choice (xs ++ [choice ys] ++ zs)).Leaves s c b step g ↔
        (choice (xs ++ ys ++ zs)).Leaves s c b step g) ∧
    (∀ r ∈ xs, ∀ step g, (choice (xs ++ [r] ++ zs)).Leaves s c b step g ↔
      (choice (xs ++ zs)).Leaves s c b step g) ∧
    (∀ step, (∀ m, step ≠ .ok (.success m)) → ∀ g,
      (sequence (xs ++ [sequence ys] ++ zs)).Leaves s c b step g ↔
        (sequence (xs ++ ys ++ zs)).Leaves s c b step g) ∧
    (∀ m g, (sequence (xs ++ [sequence ys] ++ zs)).Leaves s c b (.ok (.success m)) g →
      ∃ us vs ws, InParts s xs ys zs c us vs ws m.rest ∧
        m = .spanning (.list (us ++ [.list vs] ++ ws)) c m.rest) ∧
    (∀ m g, (sequence (xs ++ ys ++ zs)).Leaves s c b (.ok (.success m)) g →
      ∃ us vs ws, InParts s xs ys zs c us vs ws m.rest ∧
        m = .spanning (.list (us ++ vs ++ ws)) c m.rest) ∧
    ∀ us vs ws d, InParts s xs ys zs c us vs ws d → ∀ g,
      (sequence (xs ++ [sequence ys] ++ zs)).Leaves s c b
        (.ok (.success (.spanning (.list (us ++ [.list vs] ++ ws)) c d))) g ↔
      (sequence (xs ++ ys ++ zs)).Leaves s c b
        (.ok (.success (.spanning (.list (us ++ vs ++ ws)) c d))) g := by
  have happend {ps qs : List Rule} (hps : ∀ r ∈ ps, r.Composed) (hqs : ∀ r ∈ qs, r.Composed) :
      ∀ r ∈ ps ++ qs, r.Composed := List.forall_mem_append.2 ⟨hps, hqs⟩
  have hflat : ∀ r ∈ xs ++ ys ++ zs, r.Composed := happend (happend hxs hys) hzs
  have hinner {q : Rule} (hq : q.Composed) : ∀ r ∈ xs ++ [q] ++ zs, r.Composed :=
    happend (happend hxs (List.forall_mem_singleton.2 hq)) hzs
  have hchoice := Composed.choice (hinner (.choice hys))
  have hsequence := Composed.sequence (hinner (.sequence hys))
  have hnested := Plan.choice_nested hs hys c (.bare c.offset) xs zs
  refine ⟨?_, ?_, ?_, ?_, ?_, ?_, ?_⟩
  · intro step
    rw [exists_leaves_iff hs hchoice hb, exists_leaves_iff hs (.choice hflat) hb]
    exact hnested.steps step
  · intro hne step g
    exact leaves_congr hs hchoice (.choice hflat) hb rfl fun k => hnested.records hne step k
  · intro r hr step g
    exact leaves_congr hs (.choice (hinner (hxs r hr))) (.choice (happend hxs hzs)) hb rfl fun _ =>
      Plan.choice_again hr
  · intro step hstep g
    refine leaves_congr hs hsequence (.sequence hflat) hb rfl fun k => ?_
    rw [Plan.sequence_nested, Plan.sequence_flat]
    exact Plan.yields_inSeries_stop hstep
  · intro m g h
    obtain ⟨k, hyields, _⟩ := (hsequence.leaves_iff hs hb).1 h
    obtain ⟨_, hplan, _⟩ := yields_iff_plan.1 hyields
    obtain ⟨us, vs, ws, hparts, hm, _⟩ :=
      exists_inParts hs hxs hys hzs (Plan.sequence_nested xs ys zs |>.1 hplan)
    exact ⟨us, vs, ws, hparts, hm⟩
  · intro m g h
    obtain ⟨k, hyields, _⟩ := ((Composed.sequence hflat).leaves_iff hs hb).1 h
    obtain ⟨_, hplan, _⟩ := yields_iff_plan.1 hyields
    rw [Plan.sequence_flat] at hplan
    obtain ⟨us, vs, ws, hparts, hm, _⟩ := exists_inParts hs hxs hys hzs hplan
    exact ⟨us, vs, ws, hparts, hm⟩
  · intro us vs ws d hparts g
    refine leaves_congr hs hsequence (.sequence hflat) hb rfl fun k => ?_
    rw [Plan.sequence_nested, Plan.sequence_flat]
    exact hparts.yields_inSeries hs hxs hys hzs _ _

/-- Two letters inside of two others, where none of them stands and where all do. -/
theorem regrouped_letters : Store.Composed .empty ∧
    (choice [literal "a", .choice [literal "b", literal "c"], literal "d"]).Leaves .empty
      (.start "x".toList) (.fresh .unbounded)
      (.ok (.failure ⟨0, [.literal "a", .literal "b", .literal "c", .literal "d"]⟩))
      (some ⟨0, [.literal "a", .literal "b", .literal "c", .literal "d"]⟩) ∧
    (sequence [literal "a", .sequence [literal "b", literal "c"], literal "d"]).Leaves .empty
      (.start "abcd".toList) (.fresh .unbounded)
      (.ok (.success (.spanning (.list [.text "a", .list [.text "b", .text "c"], .text "d"])
        (.start "abcd".toList) ((Cursor.start "abcd".toList).past "abcd".toList [])))) none := by
  have hs : Store.Composed .empty := Store.composed_empty
  have h := @regrouped .empty [literal "a"] [literal "b", literal "c"] [literal "d"]
    (.fresh .unbounded) hs (by decide) (by decide) (by decide) rfl
  obtain ⟨_, hchoice, _⟩ := h (.start "x".toList)
  obtain ⟨_, _, _, _, _, _, hsequence⟩ := h (.start "abcd".toList)
  have hgives {rs : List Rule} (hrs : (sequence rs).Composed) {c : Cursor} {m : Match}
      (hm : ((sequence rs).trace .empty 2 c).step = some (.ok (.success m))) :
      (sequence rs).Gives .empty c (.ok (.success m)) := (hrs.gives_iff hs).2 (comes_of_trace 2 hm)
  have hparts : InParts .empty [literal "a"] [literal "b", literal "c"] [literal "d"]
      (.start "abcd".toList) [.text "a"] [.text "b", .text "c"] [.text "d"]
      ((Cursor.start "abcd".toList).past "abcd".toList []) :=
    ⟨(Cursor.start "abcd".toList).past "a".toList "bcd".toList,
      (Cursor.start "abcd".toList).past "abc".toList "d".toList,
      hgives (by decide) rfl, hgives (by decide) rfl, hgives (by decide) rfl⟩
  exact ⟨hs, (hchoice (by decide) _ _).2 ⟨2, _, rfl, rfl⟩,
    (hsequence _ _ _ _ hparts _).2 ⟨2, _, rfl, rfl⟩⟩

end Rule

end Descent
