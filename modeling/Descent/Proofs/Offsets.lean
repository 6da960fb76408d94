import Descent.Proofs.Account
import Descent.Proofs.Extent
import Descent.Proofs.Parts
import Descent.Proofs.Reports

namespace Descent

/-- What a report quotes of a text can be cut out `n` bytes into it: all before, the line up to
there, and all that follows. -/
structure Text.IsQuotable (cs : List Char) (n : Nat) : Prop where
  before : (slice? 0 n cs).isSome
  line : (slice? ((Cursor.start cs).advance n).lineStart n cs).isSome
  after : (slice? n (byteLength cs) cs).isSome

theorem Text.IsBoundary.isQuotable {cs : List Char} {n : Nat} (h : IsBoundary cs n) :
    IsQuotable cs n := by
  have hn := Cursor.advance_start_offset h
  obtain ⟨line, hl, _⟩ := ((Cursor.start cs).advance n).slice?_lineStart
  rw [hn, Cursor.source_advance, Cursor.source_start] at hl
  refine ⟨slice?_isSome_iff.2 ⟨Nat.zero_le _, isBoundary_zero cs, h⟩, ?_, ?_⟩
  · rw [hl]
    rfl
  · exact slice?_isSome_iff.2 ⟨h.le, h, isBoundary_byteLength cs⟩

namespace ParseError

/-- The report is made for a place `n` bytes into the text. -/
inductive At (text : List Char) : Nat → ParseError → Prop
  | mismatch (f : Failure) : At text f.offset (.ofFailure text f)
  | incomplete (n : Nat) : At text n (.ofLeftover text n)
  | fault (f : Fault) : At text f.offset (.ofFault text f)

theorem At.position_offset {text : List Char} {n : Nat} {e : ParseError} (h : e.At text n)
    (hn : Text.IsBoundary text n) : e.position.offset = n := by
  cases h <;> exact Cursor.advance_start_offset hn

end ParseError

namespace Rule

variable {s : Store} {r : Rule}

theorem Composed.apply_within (hs : s.Composed) (hr : r.Composed) {room : Nat} {c : Cursor}
    {b b' : Budget} {step : Step} (h : r.apply s room c b = some (step, b')) :
    Step.Within c step := by
  obtain ⟨hopened, _, hstep⟩ := hr.trace_within hs room c
  rw [hr.apply_eq_settle hs] at h
  rcases (r.trace s room c).settle_cases b with ⟨_, hset⟩ | ⟨i, a, f, ha, _, hf, b'', hset⟩
  · rw [hset] at h
    obtain ⟨x, hx, hxs⟩ := Option.map_eq_some_iff.1 h
    obtain rfl := congrArg Prod.fst hxs
    exact hstep x hx
  · -- The refused application is one of the trace, so its cursor is not before the first one.
    obtain rfl := congrArg Prod.fst (Option.some.inj (hset.symm.trans h))
    have hd := (hopened _ _ (Event.opened_of_mem_applications (List.mem_of_getElem? ha))).2
    change c.Sees f.offset
    rw [hf.offset_eq]
    exact hd.sees a.cursor.sees_offset

/-- The failure that got furthest in a run that was not aborted sits at a boundary. -/
theorem Composed.run_furthest (hs : s.Composed) (hr : r.Composed) {text : List Char} {l : Limits}
    {o : Outcome} {b : Budget} (h : r.run s text l = some (.ok o, b)) {g : Failure}
    (hg : b.furthest = some g) : Text.IsBoundary text g.offset := by
  obtain ⟨_, rfl⟩ := hr.apply_not_refused hs h (Step.not_refused_ok o)
  rw [Budget.after_fresh_furthest] at hg
  obtain ⟨f, hf, ho, _⟩ := (Failure.isFurthest_furthest hg).attained
  rw [← ho]
  exact (hr.trace_failures hs hf).isBoundary

/-- The place that a report is made for is a boundary of the text. -/
theorem Composed.parse_error_at (hs : s.Composed) (hr : r.Composed) {text : String} {l : Limits}
    {e : ParseError}
    (h : r.parseWith s text l = some (.error e) ∨ r.parseAllWith s text l = some (.error e)) :
    ∃ n, Text.IsBoundary text.toList n ∧ e.At text.toList n := by
  obtain ⟨x, hx, hrep⟩ := parse_reported h
  have hw := hr.apply_within hs hx
  cases hrep with
  | fault f b => exact ⟨_, hw.isBoundary, .fault f⟩
  | failure f b =>
    refine ⟨_, ?_, .mismatch _⟩
    unfold deeper
    split
    · split
      · exact hr.run_furthest hs hx ‹_›
      · exact hw.isBoundary
    · exact hw.isBoundary
  | stopped hf => exact ⟨_, hr.run_furthest hs hx hf, .mismatch _⟩
  | leftover m b => exact ⟨_, (hw.2.sees m.rest.sees_offset).isBoundary, .incomplete _⟩

/-- The value of a parse stands for the start of the text, and what is left over for the rest of
it. -/
theorem Composed.parse_rest (hs : s.Composed) (hr : r.Composed) {text : String}
    {l : Limits} {v : Value} {rest : String} (h : r.parseWith s text l = some (.ok (v, rest))) :
    ∃ m b taken, r.run s text.toList l = some (.ok (.success m), b) ∧ v = m.value ∧
      Text.slice? m.span.start m.span.stop text.toList = some taken ∧
      text.toList = taken ++ rest.toList ∧
      Text.slice? m.rest.offset (Text.byteLength text.toList) text.toList = some rest.toList := by
  obtain ⟨m, b, hrun, hv, rfl⟩ := parseWith_ok h
  obtain ⟨hspan, hm⟩ := hr.apply_within hs hrun
  obtain ⟨taken, hcut, hafter⟩ := hm.slice?
  have hrest : m.rest.rest.toList = m.rest.after := String.toList_ofList
  refine ⟨m, b, taken, hrun, hv, ?_, ?_, ?_⟩
  · rw [hspan]
    exact hcut
  · rw [hrest]
    exact hafter
  · have hsource : m.rest.source = text.toList := hm.1
    rw [hrest, ← hsource]
    exact m.rest.slice?_after

/-- A composed rule stays on boundaries: of matches, of failures, of faults, of all cuts that a
token makes on the way, and of those that a parse makes of its result. -/
theorem offsets_on_boundaries (hs : s.Composed) (hr : r.Composed) :
    (∀ room c b b' m, r.apply s room c b = some (.ok (.success m), b') →
      m.span = ⟨c.offset, m.rest.offset⟩ ∧ m.rest.source = c.source ∧ c.Sees m.rest.offset) ∧
    (∀ room c b b' f, r.apply s room c b = some (.ok (.failure f), b') → c.Sees f.offset) ∧
    (∀ room c b b' f, r.apply s room c b = some (.error f, b') → c.Sees f.offset) ∧
    (∀ room c q d, .opened q d ∈ (r.trace s room c).events → c.Reaches d ∧
      Text.slice? d.offset (Text.byteLength c.source) c.source = some d.after ∧
      ∀ p n, q = .token p → p.matchBytes? d = some n → ∃ k, p.matchLength? d = some k ∧
        Text.slice? d.offset (d.offset+n) c.source = some (d.after.take k)) ∧
    (∀ text l v rest, r.parseWith s text l = some (.ok (v, rest)) →
      ∃ m b taken, r.run s text.toList l = some (.ok (.success m), b) ∧ v = m.value ∧
        Text.slice? m.span.start m.span.stop text.toList = some taken ∧
        text.toList = taken ++ rest.toList ∧
        Text.slice? m.rest.offset (Text.byteLength text.toList) text.toList = some rest.toList) ∧
    ∀ text l e, r.parseWith s text l = some (.error e) ∨ r.parseAllWith s text l = some (.error e) →
      ∃ n, e.At text.toList n ∧ e.position.offset = n ∧ Text.IsQuotable text.toList n := by
  refine ⟨?_, fun room c b b' f h => hr.apply_within hs h,
    fun room c b b' f h => hr.apply_within hs h, ?_,
    fun text l v rest h => hr.parse_rest hs h, ?_⟩
  · intro room c b b' m h
    obtain ⟨hspan, hm⟩ := hr.apply_within hs h
    exact ⟨hspan, hm.1, hm.sees m.rest.sees_offset⟩
  · intro room c q d h
    have hd := ((hr.trace_within hs room c).1 q d h).2
    refine ⟨hd, by rw [← hd.1, d.slice?_after], fun p n _ hn => ?_⟩
    obtain ⟨k, hk, rfl⟩ := Option.map_eq_some_iff.1 hn
    exact ⟨k, hk, by rw [← hd.1, d.slice?_forward]⟩
  · intro text l e h
    obtain ⟨n, hn, he⟩ := hr.parse_error_at hs h
    exact ⟨n, he, he.position_offset hn, hn.isQuotable⟩

/-- A sequence that fails behind a wide character, in a choice whose alternatives expect different
things. -/
theorem offsets_on_boundaries_accent :
    parseWith .empty (.sequence [.literal "é", .choice [.literal "é", .label (.literal "z") "zed"]])
        "éa" .standard =
      some (.error (.mismatch ⟨2, 1, 2⟩ [.literal "é", .label "zed"] (some "a"))) ∧
    ∃ n, (ParseError.mismatch ⟨2, 1, 2⟩ [.literal "é", .label "zed"] (some "a")).At "éa".toList n ∧
      2 = n ∧ Text.IsQuotable "éa".toList n := by
  have h : parseWith .empty
      (.sequence [.literal "é", .choice [.literal "é", .label (.literal "z") "zed"]])
        "éa" .standard =
      some (.error (.mismatch ⟨2, 1, 2⟩ [.literal "é", .label "zed"] (some "a"))) := by rfl
  exact ⟨h, (offsets_on_boundaries (by decide) (by decide)).2.2.2.2.2 "éa" .standard _ (.inl h)⟩

end Rule

end Descent
