import Descent.Proofs.Acts
import Descent.Proofs.Offsets

namespace Descent

namespace Rule

/-- Whether a rule that fails at `c` with `f` says so of its own accord, and does not pass on what
other rules failed with: it applies none, or it is a label and tells its name in place of a failure
at its start. -/
def originates : Rule → Cursor → Failure → Bool
  | .token _, _, _ | .endOfInput, _, _ | .choice [], _, _ => true
  | .label _ _, c, f => f.offset = c.offset
  | _, _, _ => false

end Rule

/-- The failures that rules come to of their own accord, in order. -/
def Act.origins (as : List Act) : List Failure :=
  as.filterMap fun
    | .ended r c (.ok (.failure f)) => if r.originates c f then some f else none
    | _ => none

theorem Act.origins_append (as bs : List Act) : origins (as ++ bs) = origins as ++ origins bs :=
  List.filterMap_append

namespace Budget

theorem furthest_enter (b : Budget) (offset : Nat) : (b.enter offset).2.furthest = b.furthest := by
  rcases b.enter_cases offset with ⟨_, he⟩ | ⟨_, _, _, he, _⟩ <;> rw [he]

/-- What the record covers is no news to the account. -/
theorem record_of_covers {b : Budget} {f : Failure} (h : Failure.Covers b.furthest (some f)) :
    b.record f = b :=
  Budget.ext rfl rfl rfl ((b.furthest_record f).trans h)

/-- If all that is passed on is no news by then, it may be left out of the record. -/
theorem furthest_behind {b : Budget} {as : List Act}
    (h : ∀ es q d f fs, as = es ++ .ended q d (.ok (.failure f)) :: fs → q.originates d f = false →
      (b.behind es).record f = b.behind es) :
    (b.behind as).furthest = ((Act.origins as).map some).foldl Failure.join b.furthest := by
  induction as generalizing b with
  | nil => rfl
  | cons a as ih =>
    have hstep :
        (b.undergo a).furthest = ((Act.origins [a]).map some).foldl Failure.join b.furthest := by
      match a with
      | .began r c | .refused r c f => exact b.furthest_enter c.offset
      | .ended r c (.ok (.success m)) | .ended r c (.error f) => rfl
      | .ended r c (.ok (.failure f)) =>
        cases ho : r.originates c f with
        | true =>
          have horigin : Act.origins [.ended r c (.ok (.failure f))] = [f] := by
            simp [Act.origins, ho]
          rw [horigin]
          exact b.furthest_record f
        | false =>
          have horigin : Act.origins [.ended r c (.ok (.failure f))] = [] := by
            simp [Act.origins, ho]
          have hkept : (b.record f).furthest = b.furthest :=
            congrArg furthest (h [] r c f as rfl ho)
          rw [horigin]
          exact hkept
    rw [← List.singleton_append, Act.origins_append, List.map_append, List.foldl_append, ← hstep]
    exact ih fun es q d f fs has => h (a :: es) q d f fs (congrArg (a :: ·) has)

end Budget

/-- The record of the events has nothing to learn from the failure. -/
def Event.Records (es : List Event) (f : Failure) : Prop :=
  Failure.Covers (Failure.furthest (failures es)) (some f)

theorem Event.Records.mono {es fs : List Event} {f : Failure} (h : Event.Records es f)
    (hsub : es <+: fs) : Event.Records fs f := by
  obtain ⟨gs, rfl⟩ := hsub
  rw [Event.Records, failures_append, Failure.furthest_append]
  exact h.join_right _

namespace Plan

/-- A rule that fails does so at its cursor or behind it, and has told the record. -/
def recording : Contract :=
  ⟨fun _ _ => True, fun _ c es step => ∀ f,
    step = .ok (.failure f) → c.offset ≤ f.offset ∧ Event.Records es f⟩

def EndsRecorded (own : Failure → Prop) (es : List Event) (step : Step) : Prop :=
  ∀ f, step = .ok (.failure f) → own f ∨ Event.Records es f

/-- What the plan fails with is nothing new to the record by then, unless it is as in `own`. -/
def Retells (own : Failure → Prop) (p : Plan) (es : List Event) : Prop :=
  p.Meets recording (EndsRecorded own) es

section

variable {own : Failure → Prop} {c d : Cursor} {es : List Event}

theorem retells_succeed (m : Match) : (succeed m).Retells own es := fun _ hf => by cases hf

theorem retells_fault (f : Fault) : (Plan.done (.error f)).Retells own es := fun _ hf => by cases hf

theorem retells_fail {f : Failure} (h : own f ∨ Event.Records es f) : (fail f).Retells own es := by
  intro g hg
  cases hg
  exact h

theorem call_records (r : Rule) (d : Cursor) (es : List Event) :
    Call recording (EndsRecorded own) r d es (fun _ _ => True)
      fun f fs => es <+: fs ∧ d.offset ≤ f.offset ∧ Event.Records fs f := by
  refine ⟨trivial, fun fs f _ => retells_fault f, fun _ _ _ => trivial, fun fs f hf => ?_⟩
  obtain ⟨hle, hrecords⟩ := hf f rfl
  rw [Event.Records, Event.failures_append, Failure.furthest_append]
  exact ⟨List.prefix_append es fs, hle, hrecords.join_left _⟩

/-- Whatever the alternatives failed with further on, the record is further on as well. -/
theorem choice_retells (rs : List Rule) {f : Failure} (ho : f.offset = c.offset)
    (hf : Event.Records es f) : (choice c f rs).Retells own es := by
  refine choice_meets (I := fun f es => f.offset = c.offset ∧ Event.Records es f)
    (fun r _ f es hI => ?_) (fun f es hI => retells_fail (.inr hI.2)) ⟨ho, hf⟩
  obtain ⟨ho, hf⟩ := hI
  refine (call_records r c es).mono (fun m fs _ => retells_succeed m) fun g fs hg => ?_
  obtain ⟨hsub, hle, hrecords⟩ := hg
  exact ⟨ho, hrecords.adopt (ho ▸ hle) (.inr (hf.mono hsub))⟩

end

end Plan

namespace Rule

variable {s : Store} {r : Rule}

/-- What a rule fails with is on record by the time that its plan ends, unless it is of the rule's
own accord. -/
theorem Composed.plan_retells (h : r.Composed) (c : Cursor) :
    (r.plan s c).Retells (fun f => r.originates c f = true) [] := by
  by_cases hpasses : r.passesOn = true
  · refine h.plan_passes hpasses (I := fun _ => True) (fun q _ d fs _ => ?_)
      (fun m _ _ => Plan.retells_succeed m) (fun f _ _ => Plan.retells_fault f) c trivial
    exact (Plan.call_records q d fs).mono (fun _ _ hm => hm) fun _ _ hf =>
      ⟨trivial, Plan.retells_fail (.inr hf.2.2)⟩
  · cases h with
    | token p =>
      simp only [plan, Plan.token]
      split
      · exact Plan.retells_succeed _
      · exact Plan.retells_fail (.inl rfl)
    | @choice rs =>
      -- Of a choice from something, what the first alternative fails with is the first that is
      -- pooled.
      cases rs with
      | nil => exact Plan.retells_fail (.inl rfl)
      | cons q rs =>
        refine (Plan.call_records q c []).apply (fun m _ _ => Plan.retells_succeed m)
          fun f fs hf => ?_
        obtain ⟨_, hle, hrecords⟩ := hf
        exact Plan.choice_retells rs rfl (hrecords.adopt hle (.inl rfl))
    | label q name =>
      refine (Plan.call_records _ c []).apply (fun m _ _ => Plan.retells_succeed m)
        fun f fs hf => ?_
      dsimp only
      split
      · exact Plan.retells_fail (.inl (decide_eq_true rfl))
      · exact Plan.retells_fail (.inr hf.2.2)
    | endOfInput =>
      simp only [plan, Plan.endOfInput]
      split
      · exact Plan.retells_succeed _
      · exact Plan.retells_fail (.inl rfl)
    | _ => exact absurd rfl hpasses

variable {room : Nat} {c : Cursor} {b b' : Budget}

/-- An application that fails has told the record. -/
theorem acts_records {f : Failure} (h : r.apply s room c b = some (.ok (.failure f), b')) :
    Event.Records (Act.events (r.acts s room c b)) f := by
  obtain ⟨as, has⟩ := acts_failed h
  rw [Event.Records, Act.failures_events, has, Act.failures_append_acts, Failure.furthest_append]
  exact (Failure.covers_self (some f)).join_left _

/-- When a plan fails, the account has the failure on record, or the rule is where it comes from. -/
theorem Composed.run_retells (hs : s.Composed) (hr : r.Composed) {f : Failure}
    (h : (r.plan s c).run (apply s room) b = some (.ok (.failure f), b')) :
    r.originates c f = true ∨ Failure.Covers b'.furthest (some f) := by
  have hmeets := (hr.plan_among c []).and (hr.plan_retells c (s := s))
  have hgoal := Plan.acts_meets (fun q d b step b' hq happly => ?_) hmeets h
  · have htold := (Plan.run_tracked Budget.tracks_told h).furthest
    rw [htold]
    refine (hgoal.2 f rfl).imp_right fun hrecords => ?_
    rw [List.nil_append, Event.Records, Act.failures_events] at hrecords
    exact hrecords.join_left _
  · refine ⟨trivial, fun g hg => ?_⟩
    subst hg
    exact ⟨((hr.callee hs hq.1).apply_within hs happly).offset_le, acts_records happly⟩

theorem label_acts (q : Rule) (name : String) :
    ((label q name).plan s c).acts (apply s room) (acts s room) b = q.acts s room c b := by
  rw [plan, Plan.label, Plan.acts]
  split
  · rename_i o _ _
    cases o with
    | success m => exact List.append_nil _
    | failure f =>
      dsimp only
      split <;> exact List.append_nil _
  · exact List.append_nil _

/-- A label passes on what its rule fails with, or tells its name in place of a failure at its
start. -/
theorem label_failed {q : Rule} {name : String} {f : Failure}
    (h : ((label q name).plan s c).run (apply s room) b = some (.ok (.failure f), b')) :
    ∃ g, q.apply s room c b = some (.ok (.failure g), b') ∧
      f = if g.offset = c.offset then ⟨c.offset, [.label name]⟩ else g := by
  rw [plan, Plan.label, Plan.run] at h
  split at h
  · rename_i o b₁ ha
    cases o with
    | success m => cases h
    | failure g =>
      dsimp only at h
      split at h <;> rename_i ho <;> cases h
      · exact ⟨g, ha, (if_pos ho).symm⟩
      · exact ⟨f, ha, (if_neg ho).symm⟩
  · cases h
  · cases h

/-- The record of an account behind a run, however it ends, is the one before it merged in order
with the failures of tokens, of ends of input, of labels that tell their name and of choices from
nothing, and with no others. Whatever any other rule fails with is on record by then, so that to
record it changes nothing. A label tells its name in place of what its rule failed with at its
start, and passes on what it failed with further on. -/
theorem forwarding_adds_nothing (hs : s.Composed) (hr : r.Composed) (room : Nat) (c : Cursor)
    (b : Budget) : (∀ step b', r.apply s room c b = some (step, b') →
      b' = b.behind (r.acts s room c b) ∧
      b'.furthest = ((Act.origins (r.acts s room c b)).map some).foldl Failure.join b.furthest) ∧
    ∀ as q d f bs, r.acts s room c b = as ++ .ended q d (.ok (.failure f)) :: bs →
      (∃ room' b₁, (q.plan s d).run (apply s room') b₁ = some (.ok (.failure f), b.behind as)) ∧
      (q.originates d f = false → (b.behind as).record f = b.behind as) ∧
      ∀ p name, q = .label p name → ∃ es g, as = es ++ [.ended p d (.ok (.failure g))] ∧
        f = if g.offset = d.offset then ⟨d.offset, [.label name]⟩ else g := by
  have hforwards {as q d f bs} (h : r.acts s room c b = as ++ .ended q d (.ok (.failure f)) :: bs)
      (hpassed : q.originates d f = false) : (b.behind as).record f = b.behind as := by
    obtain ⟨hq, _, _, _, _, hrun⟩ := hr.acts_ended hs h
    refine Budget.record_of_covers ((hq.run_retells hs hrun).resolve_left ?_)
    rw [hpassed]
    exact Bool.false_ne_true
  refine ⟨fun step b' h => ?_, fun as q d f bs h => ⟨?_, hforwards h, ?_⟩⟩
  · have hb' := acts_tracked Budget.tracks_behind h
    exact ⟨hb', hb' ▸ Budget.furthest_behind fun _ _ _ _ _ => hforwards⟩
  · obtain ⟨_, room', _, b₁, _, hrun⟩ := hr.acts_ended hs h
    exact ⟨room', b₁, hrun⟩
  · rintro p name rfl
    obtain ⟨_, _, lead, _, rfl, hrun⟩ := hr.acts_ended hs h
    obtain ⟨g, happly, hf⟩ := label_failed hrun
    obtain ⟨es, hes⟩ := acts_failed happly
    rw [label_acts, hes]
    exact ⟨lead ++ .began (.label p name) d :: es, g, by simp, hf⟩

/-- An item in brackets or a letter. -/
def bracketedItem : Rule :=
  .choice [.enclosed (literal "(") (.reference 0 "item") (literal ")"),
    .label (literal "x") "letter"]

def bracketedItems : Store := ⟨[], [.ofList [("item", bracketedItem)]]⟩

/-- An account with ten steps left, which has a failure on record. -/
def tenStepsLeft : Budget := ⟨⟨some 20, some 15⟩, 2, 5, some ⟨1, [.endOfInput]⟩⟩

/-- What happens if no item stands behind a bracket. -/
def bracketActs : List Act :=
  acts bracketedItems 7 (.reference 0 "item") (.start ['(', 'y']) tenStepsLeft

/-- The step in which a letter would be tried in place of the bracket is refused. By then the choice
behind the bracket has added nothing to the record, and the label in it has told its name. -/
theorem forwarding_adds_nothing_refused :
    (∃ b', apply bracketedItems 7 (.reference 0 "item") (.start ['(', 'y']) tenStepsLeft =
        some (.error ⟨.stepLimit 15, 0⟩, b') ∧
      b'.furthest = some ⟨1, [.endOfInput, .literal "(", .literal "x", .label "letter"]⟩ ∧
      b'.furthest = [some ⟨1, [.literal "("]⟩, some ⟨1, [.literal "x"]⟩,
        some ⟨1, [.label "letter"]⟩].foldl Failure.join (some ⟨1, [.endOfInput]⟩)) ∧
    (bracketActs[15]? = some (.ended bracketedItem ((Cursor.start ['(', 'y']).forward 1)
        (.ok (.failure ⟨1, [.literal "(", .label "letter"]⟩))) ∧
      (tenStepsLeft.behind (bracketActs.take 15)).record ⟨1, [.literal "(", .label "letter"]⟩ =
        tenStepsLeft.behind (bracketActs.take 15)) ∧
    ∃ es g, bracketActs.take 14 = es ++
      [.ended (literal "x") ((Cursor.start ['(', 'y']).forward 1) (.ok (.failure g))] ∧
      (⟨1, [.label "letter"]⟩ : Failure) = if g.offset = 1 then ⟨1, [.label "letter"]⟩ else g := by
  obtain ⟨hrun, hfailed⟩ :=
    forwarding_adds_nothing (s := bracketedItems) (r := .reference 0 "item") (by decide)
    (by decide) 7 (.start ['(', 'y']) tenStepsLeft
  have horigins : Act.origins bracketActs =
      [⟨1, [.literal "("]⟩, ⟨1, [.literal "x"]⟩, ⟨1, [.label "letter"]⟩] := by
    decide +kernel
  refine ⟨⟨_, rfl, rfl, ?_⟩, ⟨rfl, ?_⟩, ?_⟩
  · exact (hrun _ _ rfl).2.trans
      (congrArg (fun fs => (fs.map some).foldl Failure.join tenStepsLeft.furthest) horigins)
  · exact (hfailed (bracketActs.take 15) _ _ _ (bracketActs.drop 16) rfl).2.1 rfl
  · exact (hfailed (bracketActs.take 14) _ _ _ (bracketActs.drop 15) rfl).2.2
      (literal "x") "letter" rfl

end Rule

end Descent
