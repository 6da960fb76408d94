import Descent.Proofs.ErrorPosition
import Descent.Proofs.Evaluation

namespace Descent

theorem Cursor.forward_zero (c : Cursor) : c.forward 0 = c := Cursor.ext rfl rfl (Nat.add_zero _)

namespace Rule

/-- The rule with the end of input spelled out behind it. -/
def toEnd (r : Rule) : Rule := .enclosed (.literal "") r .endOfInput

variable {s : Store} {r : Rule} {c : Cursor} {es : List Event} {m : Match} {f : Failure}

theorem Composed.toEnd (h : r.Composed) : r.toEnd.Composed := .enclosed (.token _) h .endOfInput

theorem plan_literal_empty (s : Store) (c : Cursor) :
    (literal "").plan s c = .done (.ok (.success (.spanning (.text "") c c))) := by
  have hlength : (Pattern.literal "").matchLength? c = some 0 := by simp [Pattern.matchLength?]
  simp only [literal, plan, Plan.token, hlength, c.forward_zero]
  rfl

theorem plan_endOfInput (s : Store) (c : Cursor) :
    endOfInput.plan s c = .done (.ok
      (if c.atEnd then .success (.spanning .unit c c)
      else .failure ⟨c.offset, [.endOfInput]⟩)) := by
  rw [plan, Plan.endOfInput]
  split <;> rfl

/-- The rule with the end behind it does what the rule does, and asks for the end behind a match. -/
theorem toEnd_trace (s : Store) (r : Rule) (c : Cursor) (room : Nat) :
    r.toEnd.trace s (room+2) c = .wrap r.toEnd c (((literal "").trace s (room+1) c).require fun _ =>
      (r.trace s (room+1) c).require fun m => (endOfInput.trace s (room+1) m.rest).require fun n =>
        ⟨[], some (.ok (.success (.spanning m.value c n.rest)))⟩) := by
  rw [toEnd, Rule.trace, plan, Plan.enclosed, Plan.trace_require,
    trace_done (plan_literal_empty s c)]
  simp only [Trace.require, Trace.andThen, Plan.trace_require]
  rfl

theorem Evaluates.toEnd_error {f : Fault} (h : r.Evaluates s c (.error f) es) :
    ∃ es', r.toEnd.Evaluates s c (.error f) es' := by
  obtain ⟨room, hroom⟩ := h.exists_succ
  have htrace := toEnd_trace s r c room
  rw [hroom, trace_done (plan_literal_empty s c)] at htrace
  refine ⟨_, ⟨room+2, Trace.ext rfl ?_⟩⟩
  rw [htrace]
  rfl

theorem Evaluates.toEnd_failure (h : r.Evaluates s c (.ok (.failure f)) es) :
    ∃ es', r.toEnd.Evaluates s c (.ok (.failure f)) es' ∧
      Event.failures es' = Event.failures es ++ [f] := by
  obtain ⟨room, hroom⟩ := h.exists_succ
  have htrace := toEnd_trace s r c room
  rw [hroom, trace_done (plan_literal_empty s c)] at htrace
  refine ⟨_, ⟨room+2, Trace.ext rfl ?_⟩, ?_⟩
  · rw [htrace]
    rfl
  · rw [htrace]
    simp [Trace.require, Trace.andThen, Trace.wrap, Event.failures]

theorem Evaluates.toEnd_atEnd (h : r.Evaluates s c (.ok (.success m)) es) (hm : m.rest.atEnd) :
    ∃ es', r.toEnd.Evaluates s c (.ok (.success (.spanning m.value c m.rest))) es' := by
  obtain ⟨room, hroom⟩ := h.exists_succ
  have htrace := toEnd_trace s r c room
  rw [hroom, trace_done (plan_literal_empty s c)] at htrace
  refine ⟨_, ⟨room+2, Trace.ext rfl ?_⟩⟩
  simp only [htrace, Trace.require, Trace.andThen, trace_done (plan_endOfInput s m.rest), if_pos hm]
  rfl

/-- The end that is missing is told by the rule that asks for it, and once more by the rule around
it. -/
theorem Evaluates.toEnd_before (h : r.Evaluates s c (.ok (.success m)) es) (hm : ¬ m.rest.atEnd) :
    ∃ es', r.toEnd.Evaluates s c (.ok (.failure ⟨m.rest.offset, [.endOfInput]⟩)) es' ∧
      Event.failures es' = Event.failures es ++
        [⟨m.rest.offset, [.endOfInput]⟩, ⟨m.rest.offset, [.endOfInput]⟩] := by
  obtain ⟨room, hroom⟩ := h.exists_succ
  have htrace := toEnd_trace s r c room
  rw [hroom, trace_done (plan_literal_empty s c)] at htrace
  simp only [Trace.require, Trace.andThen, trace_done (plan_endOfInput s m.rest),
    if_neg hm] at htrace
  refine ⟨_, ⟨room+2, Trace.ext rfl ?_⟩, ?_⟩
  · rw [htrace]
    rfl
  · rw [htrace]
    simp [Trace.wrap, Event.failures]

/-- With the end behind it a rule ends only where it does without. -/
theorem evaluates_of_toEnd {step : Step} {es' : List Event} (h : r.toEnd.Evaluates s c step es') :
    ∃ step es, r.Evaluates s c step es := by
  obtain ⟨room, hroom⟩ := h
  have hmore := Evaluates.trace hroom (Nat.le_add_right room 2)
  rw [toEnd_trace, trace_done (plan_literal_empty s c)] at hmore
  cases hstep : (r.trace s (room+1) c).step with
  | none =>
    rw [Trace.require, Trace.andThen_ok rfl, Trace.require, Trace.andThen_none hstep] at hmore
    cases (congrArg Trace.step hmore).symm.trans hstep
  | some step => exact ⟨step, _, evaluates_of_trace hstep⟩

theorem deeper_of_lt {f g : Failure} (h : f.offset < g.offset) : deeper f (some g) = g := if_pos h

theorem deeper_of_le {f g : Failure} (h : g.offset ≤ f.offset) : deeper f (some g) = f :=
  if_neg (Nat.not_lt.2 h)

/-- A failure that is the last to be recorded makes no difference to its own report. -/
theorem deeper_join_self (f : Failure) (g : Option Failure) :
    deeper f (Failure.join g (some f)) = deeper f g := by
  cases g with
  | none => exact deeper_of_le (Nat.le_refl _)
  | some g =>
    change deeper f (some (g.merge f)) = deeper f (some g)
    by_cases hlt : f.offset < g.offset
    · rw [Failure.merge_of_gt hlt]
    · have hmerged : (g.merge f).offset ≤ f.offset := by
        rw [Failure.offset_merge]
        omega
      rw [deeper_of_le (Nat.not_lt.1 hlt), deeper_of_le hmerged]

theorem rest_eq_empty_iff (c : Cursor) : c.rest = "" ↔ c.atEnd := by
  rw [Cursor.rest, Cursor.atEnd, List.isEmpty_iff, String.ofList_eq_empty_iff]

end Rule

/-- How the report `e` on text left over behind `n` bytes and the report `e'` on the missing end
there agree: past these bytes they are one, and right behind them the end is what is expected. -/
structure ParseError.AgreesBehind (n : Nat) (e e' : ParseError) : Prop where
  position : e'.position = e.position
  past : n < e.position.offset → e' = e
  behind : e.position.offset ≤ n → ∃ found, e' = .mismatch e.position [.endOfInput] found ∧
    (e = .incomplete e.position ∨ ∃ expected, e = .mismatch e.position expected found)

namespace Rule

section

variable {s : Store} {r : Rule} {es : List Event} {m : Match} {text : String} (hs : s.Composed)
  (hr : r.Composed)
include hs hr

theorem Composed.toEnd_of_failure {f : Failure}
    (h : r.Evaluates s (.start text.toList) (.ok (.failure f)) es) :
    ∃ e, e.fault? = none ∧ r.parseWith s text .unbounded = some (.error e) ∧
      r.parseAllWith s text .unbounded = some (.error e) ∧
        r.toEnd.parseWith s text .unbounded = some (.error e) := by
  obtain ⟨es', hend, hfailures⟩ := h.toEnd_failure
  obtain ⟨hparse, hparseAll⟩ := hr.parse_of_failure hs h
  have htoEnd := (hr.toEnd.parse_of_failure hs hend).1
  rw [hfailures, Failure.furthest_append] at htoEnd
  have hlast : Failure.furthest [f] = some f := rfl
  rw [hlast, deeper_join_self] at htoEnd
  exact ⟨_, rfl, hparse, hparseAll, htoEnd⟩

/-- What a match leaves over is told by either parse, and both reports agree. -/
theorem Composed.toEnd_of_leftover (h : r.Evaluates s (.start text.toList) (.ok (.success m)) es)
    (hm : ¬ m.rest.atEnd) : ∃ e e', r.parseAllWith s text .unbounded = some (.error e) ∧
      r.toEnd.parseWith s text .unbounded = some (.error e') ∧ e.fault? = none ∧ e'.fault? = none ∧
      e.AgreesBehind m.rest.offset e' := by
  have hrun := (hr.run_evaluates hs).2 ⟨es, h, rfl⟩
  have hbehind : (Position.locate text.toList m.rest.offset).offset = m.rest.offset := by
    have hsource : m.rest.source = text.toList := (hr.apply_within hs hrun).2.1
    exact Cursor.advance_start_offset (hsource ▸ m.rest.isBoundary)
  obtain ⟨es', hend, hfailures⟩ := h.toEnd_before hm
  have htoEnd := (hr.toEnd.parse_of_failure hs hend).1
  have hparseAll := (hr.parse_of_success hs h).2
  -- The missing end is recorded twice, and told unless a failure behind it was recorded.
  have htwice (f : Failure) : Failure.furthest [f, f] = some f := congrArg some f.merge_self
  rw [hfailures, Failure.furthest_append, htwice, deeper_join_self] at htoEnd
  have hleft (hfar : ∀ g, Failure.furthest (Event.failures es) = some g →
      g.offset < m.rest.offset) : complete text.toList m (Failure.furthest (Event.failures es)) =
        .error (.ofLeftover text.toList m.rest.offset) ∧
      deeper ⟨m.rest.offset, [.endOfInput]⟩ (Failure.furthest (Event.failures es)) =
        ⟨m.rest.offset, [.endOfInput]⟩ := by
    refine ⟨complete_leftover hm hfar, ?_⟩
    cases hg : Failure.furthest (Event.failures es) with
    | none => rfl
    | some g => exact deeper_of_le (Nat.le_of_lt (hfar g hg))
  by_cases hfar : ∀ g, Failure.furthest (Event.failures es) = some g → g.offset < m.rest.offset
  · rw [(hleft hfar).1] at hparseAll
    rw [(hleft hfar).2] at htoEnd
    refine ⟨_, _, hparseAll, htoEnd, rfl, rfl, rfl, ?_, fun _ => ⟨_, rfl, .inl rfl⟩⟩
    intro hlt
    exact absurd hlt (Nat.not_lt.2 (Nat.le_of_eq hbehind))
  · push Not at hfar
    obtain ⟨g, hg, hle⟩ := hfar
    have hplace : (Position.locate text.toList g.offset).offset = g.offset := by
      have hfurthest := (Budget.after_fresh_furthest .unbounded es).trans hg
      exact Cursor.advance_start_offset (hr.run_furthest hs hrun hfurthest)
    rw [hg, complete_stopped hm hle] at hparseAll
    rw [hg] at htoEnd
    rcases Nat.eq_or_lt_of_le hle with heq | hlt
    · have hend : deeper ⟨m.rest.offset, [.endOfInput]⟩ (some g) = ⟨g.offset, [.endOfInput]⟩ := by
        rw [← heq]
        exact deeper_of_le (Nat.le_of_eq heq.symm)
      rw [hend] at htoEnd
      refine ⟨_, _, hparseAll, htoEnd, rfl, rfl, rfl, ?_, fun _ => ⟨_, rfl, .inr ⟨_, rfl⟩⟩⟩
      intro hlt
      have hlt : m.rest.offset < g.offset := Nat.lt_of_lt_of_eq hlt hplace
      omega
    · have hend : deeper ⟨m.rest.offset, [.endOfInput]⟩ (some g) = g := deeper_of_lt hlt
      rw [hend] at htoEnd
      refine ⟨_, _, hparseAll, htoEnd, rfl, rfl, rfl, fun _ => rfl, ?_⟩
      intro hle
      have hle : g.offset ≤ m.rest.offset := Nat.le_trans (Nat.le_of_eq hplace.symm) hle
      omega

end

/-- To parse all of a text is to parse it with the end of input spelled out behind the rule, and
that is to parse it and leave nothing over. Without limits both end or neither does, both accept
with the same value or neither, and both raise the same fault. All other errors are reported at one
place. They are the same if the rule failed or if that place is past the end of its match; else the
second report expects the end of input. -/
theorem parseAll_eq_toEnd {s : Store} {r : Rule} (hs : s.Composed) (hr : r.Composed)
    (text : String) :
    (r.parseAllWith s text .unbounded = none ↔ r.toEnd.parseWith s text .unbounded = none) ∧
    (∀ v, r.parseAllWith s text .unbounded = some (.ok v) ↔
      r.toEnd.parseWith s text .unbounded = some (.ok (v, ""))) ∧
    (∀ v, r.parseAllWith s text .unbounded = some (.ok v) ↔
      r.parseWith s text .unbounded = some (.ok (v, ""))) ∧
    (∀ v rest, r.toEnd.parseWith s text .unbounded = some (.ok (v, rest)) → rest = "") ∧
    (∀ p f, r.parseAllWith s text .unbounded = some (.error (.fault p f)) ↔
      r.toEnd.parseWith s text .unbounded = some (.error (.fault p f))) ∧
    ∀ e e', r.parseAllWith s text .unbounded = some (.error e) →
      r.toEnd.parseWith s text .unbounded = some (.error e') →
        e'.position = e.position ∧
        (∀ f b, r.run s text.toList .unbounded = some (.ok (.failure f), b) → e' = e) ∧
        ∀ m b, r.run s text.toList .unbounded = some (.ok (.success m), b) →
          e.AgreesBehind m.rest.offset e' := by
  by_cases hends : ∃ step es, r.Evaluates s (.start text.toList) step es
  · obtain ⟨step, es, h⟩ := hends
    have hrun := (hr.run_evaluates hs).2 ⟨es, h, rfl⟩
    match step, h with
    | .error f, h =>
      obtain ⟨es', hend⟩ := h.toEnd_error
      obtain ⟨hparse, hparseAll⟩ := hr.parse_of_fault hs h
      have htoEnd := (hr.toEnd.parse_of_fault hs hend).1
      refine ⟨?_, ?_, ?_, ?_, ?_, ?_⟩
      all_goals simp [hparse, hparseAll, htoEnd, hrun]
    | .ok (.failure f), h =>
      obtain ⟨e, he, hparse, hparseAll, htoEnd⟩ := hr.toEnd_of_failure hs h
      refine ⟨?_, ?_, ?_, ?_, ?_, ?_⟩
      all_goals simp [hparse, hparseAll, htoEnd, hrun]
    | .ok (.success m), h =>
      obtain ⟨hparse, hparseAll⟩ := hr.parse_of_success hs h
      by_cases hm : m.rest.atEnd
      · obtain ⟨es', hend⟩ := h.toEnd_atEnd hm
        have htoEnd := (hr.toEnd.parse_of_success hs hend).1
        have hrest := (rest_eq_empty_iff m.rest).2 hm
        rw [complete_atEnd hm] at hparseAll
        refine ⟨?_, ?_, ?_, ?_, ?_, ?_⟩
        all_goals simp [hparse, hparseAll, htoEnd, hrun, Match.spanning, hrest]
      · have hrest := mt (rest_eq_empty_iff m.rest).1 hm
        obtain ⟨e, e', hparseAll, htoEnd, he, he', hagrees⟩ := hr.toEnd_of_leftover hs h hm
        have hfault (p : Position) (f : Fault) : e = .fault p f ↔ e' = .fault p f := by
          constructor <;> rintro rfl
          · cases he
          · cases he'
        refine ⟨?_, ?_, ?_, ?_, ?_, ?_⟩
        all_goals simp [hparse, hparseAll, htoEnd, hrun, hrest, hfault, hagrees, hagrees.position]
  · have hrun := hr.run_eq_none hs fun step es h => hends ⟨step, es, h⟩
    have hend := hr.toEnd.run_eq_none hs fun step es h => hends (evaluates_of_toEnd h)
    obtain ⟨hparse, hparseAll⟩ := parse_none hrun
    have htoEnd := (parse_none hend).1
    refine ⟨?_, ?_, ?_, ?_, ?_, ?_⟩
    all_goals simp [hparse, hparseAll, htoEnd]

/-- A repetition that a deeper failure stopped, a match behind which nothing else was tried, and one
of all the text. -/
theorem parseAll_eq_toEnd_stopped :
    ParseError.AgreesBehind 2 (.mismatch ⟨3, 1, 4⟩ [.literal "b"] (some "c"))
      (.mismatch ⟨3, 1, 4⟩ [.literal "b"] (some "c")) ∧
    ParseError.AgreesBehind 2 (.incomplete ⟨2, 1, 2⟩)
      (.mismatch ⟨2, 1, 2⟩ [.endOfInput] (some "a")) ∧
    parseWith .empty (toEnd (.repeated (.literal "a"))) "aa" .unbounded =
      some (.ok (.list [.text "a", .text "a"], "")) := by
  refine ⟨?_, ?_, ?_⟩
  · obtain ⟨_, _, _, _, _, herrors⟩ := parseAll_eq_toEnd (s := .empty)
      (r := .repeated (.sequence [.literal "a", .literal "b"])) (by decide) (by decide) "abac"
    exact (herrors _ _ rfl rfl).2.2 _ _ rfl
  · obtain ⟨_, _, _, _, _, herrors⟩ :=
      parseAll_eq_toEnd (s := .empty) (r := .literal "é") (by decide) (by decide) "éa"
    exact (herrors _ _ rfl rfl).2.2 _ _ rfl
  · obtain ⟨_, haccepts, _⟩ :=
      parseAll_eq_toEnd (s := .empty) (r := .repeated (.literal "a")) (by decide) (by decide) "aa"
    exact (haccepts _).1 rfl

end Rule

end Descent
