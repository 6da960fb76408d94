import Descent.Proofs.Diagnostics
import Descent.Proofs.Offsets

namespace Descent

/-- The greatest offset of a failure among the events, if there is any. -/
def Event.furthestOffset? (es : List Event) : Option Nat := ((failures es).map Failure.offset).max?

theorem Event.furthestOffset?_isSome {es : List Event} {f : Failure} (hf : f ∈ failures es) :
    ∃ n, furthestOffset? es = some n ∧ f.offset ≤ n := by
  have hmem : f.offset ∈ (failures es).map Failure.offset := List.mem_map_of_mem hf
  have hsome : (furthestOffset? es).isSome := List.isSome_max?_of_mem hmem
  obtain ⟨n, hn⟩ := Option.isSome_iff_exists.1 hsome
  exact ⟨n, hn, (List.max?_eq_some_iff.1 hn).2 _ hmem⟩

/-- A mismatch, reported for the place `n` bytes into the text and located right there. -/
def ParseError.MismatchAt (text : String) (n : Nat) (e : ParseError) : Prop :=
  ∃ expected found, e = .mismatch (Position.locate text.toList n) expected found ∧
    (Position.locate text.toList n).offset = n

theorem ParseError.mismatchAt_ofFailure {text : String} {f : Failure}
    (h : Text.IsBoundary text.toList f.offset) :
    (ParseError.ofFailure text.toList f).MismatchAt text f.offset :=
  ⟨f.expected, _, rfl, Cursor.advance_start_offset h⟩

namespace Rule

variable {s : Store} {r : Rule} {text : String} {l : Limits}

/-- A run that no limit stopped has gone through all events of its evaluation. -/
theorem Composed.run_replay (hs : s.Composed) (hr : r.Composed) {o : Outcome} {b : Budget}
    (h : r.run s text.toList l = some (.ok o, b)) :
    (Budget.fresh l).replay (r.evaluation s text l) = (.ok (), b) := by
  obtain ⟨_, hb⟩ := hr.apply_not_refused hs h (Step.not_refused_ok o)
  rcases (Budget.fresh l).replay_cases (r.evaluation s text l) with
    ⟨_, hreplay⟩ | ⟨_, _, f, _, _, hf, b', hreplay⟩
  · rw [hreplay, hb]
    rfl
  · have hsettle := Trace.settle_error hreplay
    rw [run, hr.apply_eq_settle hs] at h
    cases h.symm.trans hsettle

theorem Composed.run_furthestOffset (hs : s.Composed) (hr : r.Composed) {o : Outcome} {b : Budget}
    (h : r.run s text.toList l = some (.ok o, b)) :
    Event.furthestOffset? (r.evaluation s text l) = b.furthest.map Failure.offset := by
  rw [(hr.run_told hs h).2, Failure.offset_furthest]
  rfl

theorem offset_deeper (f g : Failure) : (deeper f (some g)).offset = max f.offset g.offset := by
  unfold deeper
  dsimp only
  split <;> omega

/-- A rule that fails is reported where the furthest failure is, its own one included. -/
theorem Composed.failure_position (hs : s.Composed) (hr : r.Composed) {f : Failure} {b : Budget}
    (h : r.run s text.toList l = some (.ok (.failure f), b)) :
    ∃ n e, Event.furthestOffset? (r.evaluation s text l) = some n ∧ e.MismatchAt text n ∧
      r.parseWith s text l = some (.error e) ∧ r.parseAllWith s text l = some (.error e) := by
  obtain ⟨_, hclosed, _⟩ := (hr.run_told hs h).1
  obtain ⟨n, hn, hle⟩ := Event.furthestOffset?_isSome (Event.mem_failures.2 ⟨r, _, hclosed⟩)
  obtain ⟨g, hg, hgn⟩ := Option.map_eq_some_iff.1 ((hr.run_furthestOffset hs h).symm.trans hn)
  obtain ⟨hparse, hparseAll⟩ := parse_failure h
  rw [hg] at hparse hparseAll
  have hoffset : (deeper f (some g)).offset = n := by
    rw [offset_deeper]
    omega
  have hboundary : Text.IsBoundary text.toList (deeper f (some g)).offset := by
    rw [hoffset, ← hgn]
    exact hr.run_furthest hs h hg
  exact ⟨n, _, hn, hoffset ▸ ParseError.mismatchAt_ofFailure hboundary, hparse, hparseAll⟩

theorem complete_atEnd {text : List Char} {m : Match} (h : m.rest.atEnd) (g : Option Failure) :
    complete text m g = .ok m.value := by
  unfold complete
  rw [if_pos h]

theorem complete_stopped {text : List Char} {m : Match} (h : ¬ m.rest.atEnd) {g : Failure}
    (hg : m.rest.offset ≤ g.offset) : complete text m (some g) = .error (.ofFailure text g) := by
  unfold complete
  rw [if_neg h]
  exact if_pos hg

theorem complete_leftover {text : List Char} {m : Match} (h : ¬ m.rest.atEnd) {g : Option Failure}
    (hg : ∀ f, g = some f → f.offset < m.rest.offset) :
    complete text m g = .error (.ofLeftover text m.rest.offset) := by
  unfold complete
  rw [if_neg h]
  cases g with
  | none => rfl
  | some f => exact if_neg (Nat.not_le.2 (hg f rfl))

/-- What a match leaves over is told as the furthest failure, unless that stayed before the end of
the match. -/
theorem Composed.leftover_position (hs : s.Composed) (hr : r.Composed) {m : Match} {b : Budget}
    (h : r.run s text.toList l = some (.ok (.success m), b))
    (hend : m.rest.offset < Text.byteLength text.toList) :
    (∀ n, Event.furthestOffset? (r.evaluation s text l) = some n → m.rest.offset ≤ n →
      ∃ e, e.MismatchAt text n ∧ r.parseAllWith s text l = some (.error e)) ∧
    ((∀ n, Event.furthestOffset? (r.evaluation s text l) = some n → n < m.rest.offset) →
      r.parseAllWith s text l =
        some (.error (.incomplete (Position.locate text.toList m.rest.offset))) ∧
      (Position.locate text.toList m.rest.offset).offset = m.rest.offset) := by
  have hwithin := hr.apply_within hs h
  have hsource : m.rest.source = text.toList := hwithin.2.1
  have hend' : ¬ m.rest.atEnd := by
    rw [m.rest.atEnd_iff, hsource]
    omega
  have hparse := (parse_success h).2
  have hfar := hr.run_furthestOffset hs h
  constructor
  · intro n hn hle
    obtain ⟨g, hg, rfl⟩ := Option.map_eq_some_iff.1 (hfar.symm.trans hn)
    have hboundary := hr.run_furthest hs h hg
    rw [hg, complete_stopped hend' hle] at hparse
    exact ⟨_, ParseError.mismatchAt_ofFailure hboundary, hparse⟩
  · intro hbefore
    have hg (f : Failure) (hf : b.furthest = some f) : f.offset < m.rest.offset := by
      refine hbefore f.offset ?_
      rw [hfar, hf]
      rfl
    rw [complete_leftover hend' hg] at hparse
    exact ⟨hparse, Cursor.advance_start_offset (hsource ▸ m.rest.isBoundary)⟩

/-- Where errors are reported, and of which kind. In a run that was not aborted, `n` is the greatest
offset at which any application failed, also one that was recovered from. A rule that fails is a
mismatch at `n`. A match that does not reach the end of the text is a mismatch at `n` if `n` is not
before its end, and else is incomplete at its end. A match that reaches the end is no error. -/
theorem error_position (hs : s.Composed) (hr : r.Composed) (text : String)
    {o : Outcome} {b : Budget} (h : r.run s text.toList l = some (.ok o, b)) :
    (Budget.fresh l).replay (r.evaluation s text l) = (.ok (), b) ∧
    (∀ f, o = .failure f →
      ∃ n e, Event.furthestOffset? (r.evaluation s text l) = some n ∧ e.MismatchAt text n ∧
        r.parseWith s text l = some (.error e) ∧ r.parseAllWith s text l = some (.error e)) ∧
    ∀ m, o = .success m →
      (m.rest.offset < Text.byteLength text.toList →
        (∀ n, Event.furthestOffset? (r.evaluation s text l) = some n → m.rest.offset ≤ n →
          ∃ e, e.MismatchAt text n ∧ r.parseAllWith s text l = some (.error e)) ∧
        ((∀ n, Event.furthestOffset? (r.evaluation s text l) = some n → n < m.rest.offset) →
          r.parseAllWith s text l =
            some (.error (.incomplete (Position.locate text.toList m.rest.offset))) ∧
          (Position.locate text.toList m.rest.offset).offset = m.rest.offset)) ∧
      (m.rest.offset = Text.byteLength text.toList →
        r.parseAllWith s text l = some (.ok m.value)) := by
  refine ⟨hr.run_replay hs h, ?_, ?_⟩
  · rintro f rfl
    exact hr.failure_position hs h
  · rintro m rfl
    refine ⟨hr.leftover_position hs h, fun hend => ?_⟩
    have hsource : m.rest.source = text.toList := (hr.apply_within hs h).2.1
    have hatEnd : m.rest.atEnd := m.rest.atEnd_iff.2 (hsource ▸ hend)
    rw [(parse_success h).2, complete_atEnd hatEnd]

/-- A choice whose first alternative fails behind a wide character; a repetition stopped in its
second round; a match behind the only failure; and a match of all text with a failure at its end. -/
theorem error_position_recovered :
    (∃ e : ParseError, e.MismatchAt "aéc" 3 ∧
      parseWith .empty (.choice [.sequence [.literal "aé", .literal "b"], .literal "ac"])
        "aéc" .standard = some (.error e) ∧
      parseAllWith .empty (.choice [.sequence [.literal "aé", .literal "b"], .literal "ac"])
        "aéc" .standard = some (.error e)) ∧
    (∃ e : ParseError, e.MismatchAt "abac" 3 ∧
      parseAllWith .empty (.repeated (.sequence [.literal "a", .literal "b"])) "abac" .standard =
        some (.error e)) ∧
    parseAllWith .empty (.sequence [.optional (.literal "a"), .literal "b"]) "bc" .standard =
      some (.error (.incomplete ⟨1, 1, 2⟩)) ∧
    parseAllWith .empty (.repeated (.literal "a")) "aa" .standard =
      some (.ok (.list [.text "a", .text "a"])) := by
  refine ⟨?_, ?_, ?_, ?_⟩
  · obtain ⟨_, hfails, _⟩ := error_position (s := .empty) (l := .standard)
      (r := .choice [.sequence [.literal "aé", .literal "b"], .literal "ac"]) (by decide)
        (by decide) "aéc" rfl
    obtain ⟨n, e, hn, he, hparses⟩ := hfails _ rfl
    obtain rfl : 3 = n := Option.some.inj hn
    exact ⟨e, he, hparses⟩
  · obtain ⟨_, _, hmatches⟩ := error_position (s := .empty) (l := .standard)
      (r := .repeated (.sequence [.literal "a", .literal "b"])) (by decide) (by decide) "abac" rfl
    obtain ⟨hstopped, _⟩ := (hmatches _ rfl).1 (by decide)
    exact hstopped 3 rfl (by decide)
  · obtain ⟨_, _, hmatches⟩ := error_position (s := .empty) (l := .standard)
      (r := .sequence [.optional (.literal "a"), .literal "b"]) (by decide) (by decide) "bc" rfl
    obtain ⟨_, hleft⟩ := (hmatches _ rfl).1 (by decide)
    refine (hleft fun n hn => ?_).1
    obtain rfl : 0 = n := Option.some.inj hn
    decide
  · obtain ⟨_, _, hmatches⟩ := error_position (s := .empty) (l := .standard)
      (r := .repeated (.literal "a")) (by decide) (by decide) "aa" rfl
    exact (hmatches _ rfl).2 rfl

end Rule

end Descent
