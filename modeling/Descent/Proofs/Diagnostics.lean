import Descent.Proofs.Account
import Descent.Proofs.Extent
import Descent.Proofs.Parts
import Descent.Proofs.Reports

namespace Descent

/-- What is expected does not stand at the cursor. Of a label, the events tell that its rule failed
there. -/
def Expected.Unmet (es : List Event) (d : Cursor) : Expected → Prop
  | .literal text => ¬ text.toList <+: d.after
  | .pattern source => ∃ regex, Regex.parse? source.toList = some regex ∧
    regex.matchLength? d.before.head? d.after = none
  | .label name => ∃ q g, .opened (.label q name) d ∈ es ∧ .closed q d (.ok (.failure g)) ∈ es ∧
    g.offset = d.offset
  | .endOfInput => d.offset < Text.byteLength d.source

theorem Expected.Unmet.mono {es fs : List Event} (h : es ⊆ fs) {d : Cursor} {e : Expected}
    (he : e.Unmet es d) : e.Unmet fs d := by
  cases e with
  | literal | pattern | endOfInput => exact he
  | label name =>
    obtain ⟨q, g, hopened, hclosed, hg⟩ := he
    exact ⟨q, g, h hopened, h hclosed, hg⟩

theorem Pattern.unmet {p : Pattern} {d : Cursor} (h : p.matchLength? d = none) (es : List Event) :
    p.expected.Unmet es d := by
  cases p with
  | literal text =>
    intro hp
    rw [matchLength?, if_pos (List.isPrefixOf_iff_prefix.2 hp)] at h
    cases h
  | regex source regex hw => exact ⟨regex, hw, h⟩

namespace Failure

/-- A failure among the events got further. -/
def Surpassed (es : List Event) (f : Failure) : Prop := ∃ g ∈ Event.failures es, f.offset < g.offset

def Unmet (text : List Char) (es : List Event) (f : Failure) : Prop :=
  ∀ d : Cursor, d.source = text → d.offset = f.offset → ∀ e ∈ f.expected, e.Unmet es d

/-- There was nothing to choose from. -/
def Vacuous (text : List Char) (es : List Event) (f : Failure) : Prop :=
  ∃ d : Cursor, d.source = text ∧ d.offset = f.offset ∧ .opened (.choice []) d ∈ es

/-- The failure tells the truth, as far as no other one is told instead: what a choice expects at
its start is what its alternatives expected further on, and then one of theirs got further. -/
structure Sound (text : List Char) (es : List Event) (f : Failure) : Prop where
  nodup : f.expected.Nodup
  unmet : f.Surpassed es ∨ f.Unmet text es
  vacuous : f.expected = [] → f.Surpassed es ∨ f.Vacuous text es

variable {text : List Char} {es fs : List Event} {f g : Failure}

theorem Surpassed.mono (h : es ⊆ fs) (hf : f.Surpassed es) : f.Surpassed fs := by
  obtain ⟨g, hg, hlt⟩ := hf
  obtain ⟨r, c, hm⟩ := Event.mem_failures.1 hg
  exact ⟨g, Event.mem_failures.2 ⟨r, c, h hm⟩, hlt⟩

theorem Unmet.mono (h : es ⊆ fs) (hf : f.Unmet text es) : f.Unmet text fs :=
  fun d hd ho e he => (hf d hd ho e he).mono h

theorem Sound.mono (h : es ⊆ fs) (hf : f.Sound text es) : f.Sound text fs where
  nodup := hf.nodup
  unmet := hf.unmet.imp (.mono h) (.mono h)
  vacuous he := (hf.vacuous he).imp (.mono h) fun ⟨d, hd, ho, hm⟩ => ⟨d, hd, ho, h hm⟩

theorem sound_expect {c : Cursor} (hc : c.source = text) {e : Expected} (he : e.Unmet es c) :
    Sound text es ⟨c.offset, [e]⟩ := by
  refine ⟨List.pairwise_singleton _ e, .inr fun d hd ho e' he' => ?_, fun h => by cases h⟩
  obtain rfl := List.mem_singleton.1 he'
  obtain rfl : d = c := Cursor.eq_of_offset (hd.trans hc.symm) ho
  exact he

/-- Whatever is pooled from further on, the failure that it is taken from surpasses the pool. -/
theorem Sound.adopt (hn : f.expected.Nodup) (hf : f.Surpassed es ∨ f.Unmet text es)
    (hg : g.Sound text es) (hm : g ∈ Event.failures es) (hle : f.offset ≤ g.offset) :
    (f.adopt g).Sound text es := by
  by_cases hlt : f.offset < g.offset
  · have hs : (f.adopt g).Surpassed es := ⟨g, hm, hlt⟩
    exact ⟨nodup_pool hn, .inl hs, fun _ => .inl hs⟩
  · have ho : f.offset = g.offset := by omega
    have hsurpassed : g.Surpassed es → (f.adopt g).Surpassed es := by
      rintro ⟨k, hk, hgk⟩
      exact ⟨k, hk, ho ▸ hgk⟩
    refine ⟨nodup_pool hn, ?_, ?_⟩
    · rcases hf with hf | hf
      · exact .inl hf
      · refine hg.unmet.imp hsurpassed fun hg d hd hdo e he => ?_
        rcases mem_pool.1 he with he | he
        · exact hf d hd hdo e he
        · exact hg d hd (hdo.trans ho) e he
    · intro he
      refine (hg.vacuous (pool_eq_nil_iff.1 he).2).imp hsurpassed ?_
      rintro ⟨d, hd, hdo, hopened⟩
      exact ⟨d, hd, hdo.trans ho.symm, hopened⟩

end Failure

/-- All failures among the events are sound. -/
def Event.Sound (text : List Char) (es : List Event) : Prop := ∀ f ∈ failures es, f.Sound text es

theorem Event.Sound.append {text : List Char} {es fs : List Event} (hes : Event.Sound text es)
    (hfs : Event.Sound text fs) : Event.Sound text (es ++ fs) := by
  intro f hf
  rw [failures_append] at hf
  rcases List.mem_append.1 hf with hf | hf
  · exact (hes f hf).mono (List.subset_append_left es fs)
  · exact (hfs f hf).mono (List.subset_append_right es fs)

namespace Plan

/-- Of an application: the events tell how it ended, and all failures among them are sound. -/
def Told (text : List Char) (r : Rule) (c : Cursor) (es : List Event) (step : Step) : Prop :=
  Step.Within c step ∧ .closed r c step ∈ es ∧ Event.Sound text es

def telling (text : List Char) : Contract := ⟨fun _ _ => True, Told text⟩

def EndsSound (text : List Char) (es : List Event) (step : Step) : Prop :=
  Event.Sound text es ∧ ∀ f, step = .ok (.failure f) → f.Sound text es

/-- If the failures of all rules that the plan applies are sound, that which it ends with is. -/
def Tells (text : List Char) (p : Plan) (es : List Event) : Prop :=
  p.Meets (telling text) (EndsSound text) es

section

variable {text : List Char} {c d : Cursor} {es : List Event}

theorem tells_fail (hes : Event.Sound text es) {f : Failure} (hf : f.Sound text es) :
    (fail f).Tells text es := by
  refine ⟨hes, ?_⟩
  intro g hg
  cases hg
  exact hf

theorem tells_succeed (hes : Event.Sound text es) (m : Match) : (succeed m).Tells text es :=
  ⟨hes, fun _ hf => by cases hf⟩

theorem tells_fault (hes : Event.Sound text es) (f : Fault) :
    (Plan.done (.error f)).Tells text es :=
  ⟨hes, fun _ hf => by cases hf⟩

theorem call_tells (hes : Event.Sound text es) (r : Rule) (d : Cursor) :
    Call (telling text) (EndsSound text) r d es (fun _ fs => Event.Sound text fs)
      fun f fs => es ⊆ fs ∧ Event.Sound text fs ∧ .closed r d (.ok (.failure f)) ∈ fs ∧
        d.offset ≤ f.offset := by
  refine ⟨trivial, ?_, fun fs m hm => hes.append hm.2.2, ?_⟩
  · intro fs f hf
    exact ⟨hes.append hf.2.2, fun _ h => by cases h⟩
  · intro fs f hf
    obtain ⟨hw, hclosed, hfs⟩ := hf
    exact ⟨List.subset_append_left es fs, hes.append hfs, List.mem_append_right es hclosed,
      hw.offset_le⟩

/-- A failure that is passed on is one among the events. -/
theorem call_passes (hes : Event.Sound text es) (r : Rule) (d : Cursor) :
    Call (telling text) (EndsSound text) r d es (fun _ fs => Event.Sound text fs)
      fun f fs => (fail f).Tells text fs := by
  refine (call_tells hes r d).mono (fun _ _ hm => hm) fun f fs hf => ?_
  obtain ⟨_, hfs, hclosed, _⟩ := hf
  exact tells_fail hfs (hfs f (Event.mem_failures.2 ⟨r, d, hclosed⟩))

theorem token_tells (p : Pattern) (hc : c.source = text) (hes : Event.Sound text es) :
    (token p c).Tells text es := by
  unfold token
  split
  · exact tells_succeed hes _
  · rename_i hp
    exact tells_fail hes (Failure.sound_expect hc (Pattern.unmet hp es))

theorem choice_tells (rs : List Rule) {f : Failure} (hes : Event.Sound text es)
    (ho : f.offset = c.offset) (hf : f.Sound text es) : (choice c f rs).Tells text es := by
  refine choice_meets (I := fun f es => Event.Sound text es ∧ f.offset = c.offset ∧ f.Sound text es)
    (fun r _ f es hI => ?_) (fun f es hI => tells_fail hI.1 hI.2.2) ⟨hes, ho, hf⟩
  obtain ⟨hes, ho, hf⟩ := hI
  refine (call_tells hes r c).mono (fun m fs hfs => tells_succeed hfs m) fun g fs hg => ?_
  obtain ⟨hsub, hfs, hclosed, hle⟩ := hg
  have hm := Event.mem_failures.2 ⟨r, c, hclosed⟩
  have hf := hf.mono hsub
  exact ⟨hfs, ho, .adopt hf.nodup hf.unmet (hfs g hm) hm (ho ▸ hle)⟩

theorem label_tells (r : Rule) (name : String) (hc : c.source = text) (hes : Event.Sound text es)
    (hopened : .opened (.label r name) c ∈ es) : (label r name c).Tells text es := by
  refine (call_tells hes r c).apply (fun m fs hfs => tells_succeed hfs m) fun f fs hf => ?_
  obtain ⟨hsub, hfs, hclosed, _⟩ := hf
  dsimp only
  split
  · rename_i ho
    exact tells_fail hfs (Failure.sound_expect hc ⟨r, f, hsub hopened, hclosed, ho⟩)
  · exact tells_fail hfs (hfs f (Event.mem_failures.2 ⟨r, c, hclosed⟩))

theorem endOfInput_tells (hc : c.source = text) (hes : Event.Sound text es) :
    (endOfInput c).Tells text es := by
  unfold endOfInput
  split
  · exact tells_succeed hes _
  · rename_i hend
    have hne : c.offset ≠ Text.byteLength c.source := fun h => hend (c.atEnd_iff.2 h)
    have hlt : c.offset < Text.byteLength c.source := Nat.lt_of_le_of_ne c.offset_le hne
    exact tells_fail hes (Failure.sound_expect hc hlt)

end

end Plan

theorem Event.sound_opened (text : List Char) (r : Rule) (c : Cursor) :
    Event.Sound text [.opened r c] := fun _ hf => absurd hf List.not_mem_nil

namespace Rule

variable {s : Store} {r : Rule}

theorem Composed.plan_tells (h : r.Composed) (c : Cursor) :
    (r.plan s c).Tells c.source [.opened r c] := by
  have hes := Event.sound_opened c.source r c
  by_cases hpasses : r.passesOn = true
  · refine h.plan_passes hpasses (I := Event.Sound c.source) (fun q _ d fs hfs => ?_)
      (fun m fs hfs => Plan.tells_succeed hfs m) (fun f fs hfs => Plan.tells_fault hfs f) c hes
    exact (Plan.call_passes hfs q d).mono (fun _ _ hgs => hgs) fun _ _ hgs => ⟨hgs.1, hgs⟩
  · cases h with
    | token p => exact Plan.token_tells p rfl hes
    | @choice rs =>
      -- A choice of nothing fails with no expectation; one of something fails with what it adopts.
      cases rs with
      | nil =>
        refine Plan.tells_fail hes ⟨List.nodup_nil, .inr fun _ _ _ e he => ?_, fun _ => .inr ?_⟩
        · cases he
        · exact ⟨c, rfl, rfl, List.mem_singleton.2 rfl⟩
      | cons q rs =>
        refine (Plan.call_tells hes q c).apply (fun m fs hfs => Plan.tells_succeed hfs m) ?_
        intro f fs hf
        obtain ⟨_, hfs, hclosed, hle⟩ := hf
        have hm := Event.mem_failures.2 ⟨q, c, hclosed⟩
        refine Plan.choice_tells rs hfs rfl (.adopt List.nodup_nil (.inr ?_) (hfs f hm) hm hle)
        intro _ _ _ e he
        cases he
    | label _ name => exact Plan.label_tells _ name rfl hes (List.mem_singleton.2 rfl)
    | endOfInput => exact Plan.endOfInput_tells rfl hes
    | _ => exact absurd rfl hpasses

/-- An evaluation that is over has told of its end, and all failures on the way are sound. -/
theorem Composed.trace_told (hs : s.Composed) (hr : r.Composed) {room : Nat}
    {c : Cursor} {step : Step} (h : (r.trace s room c).step = some step) :
    Plan.Told c.source r c (r.trace s room c).events step := by
  refine (Rule.Composed.trace_keeps hs (k := ⟨fun _ d => d.source = c.source, Plan.Told c.source⟩)
    (fun q d hq hd => ?_) room hr rfl).step step h
  have htells : (q.plan s d).Tells c.source ([.opened q d] ++ []) := hd ▸ hq.plan_tells d
  refine ((hq.plan_stays d []).and htells.behind).mono ?_ ?_ ?_
  · exact fun _ _ he => he.1.1.trans hd
  · exact fun _ _ _ _ htold => ⟨htold.1, htold⟩
  · intro es step ⟨hw, hes, hf⟩
    refine ⟨hw, by simp, ?_⟩
    intro f hm
    rw [← List.cons_append, Event.failures_append] at hm
    rw [← List.cons_append]
    have hsub := List.subset_append_left (.opened q d :: es) [.closed q d step]
    rcases List.mem_append.1 hm with hm | hm
    · exact (hes f hm).mono hsub
    · obtain ⟨q', d', hm⟩ := Event.mem_failures.1 hm
      cases List.mem_singleton.1 hm
      exact (hf f rfl).mono hsub

/-- What the evaluation of a rule in a text does, in the room that a parse has. -/
def evaluation (s : Store) (r : Rule) (text : String) (l : Limits) : List Event :=
  (r.trace s (r.room s text.toList l) (.start text.toList)).events

theorem Composed.run_told (hs : s.Composed) (hr : r.Composed) {text : String}
    {l : Limits} {o : Outcome} {b : Budget} (h : r.run s text.toList l = some (.ok o, b)) :
    Plan.Told text.toList r (.start text.toList) (r.evaluation s text l) (.ok o) ∧
    b.furthest = Failure.furthest (Event.failures (r.evaluation s text l)) := by
  obtain ⟨hstep, rfl⟩ := hr.apply_not_refused hs h (Step.not_refused_ok o)
  exact ⟨hr.trace_told hs hstep, Budget.after_fresh_furthest _ _⟩

theorem deeper_furthest {fs : List Failure} {f : Failure} (hf : f ∈ fs)
    (hn : ∀ g ∈ fs, g.expected.Nodup) :
    Failure.IsFurthest fs (deeper f (Failure.furthest fs)) ∧
    (deeper f (Failure.furthest fs)).expected.Nodup := by
  cases hg : Failure.furthest fs with
  | none =>
    rw [Failure.furthest_eq_none hg] at hf
    cases hf
  | some g =>
    have hfar := Failure.isFurthest_furthest hg
    unfold deeper
    dsimp only
    split
    · exact ⟨hfar, Failure.nodup_furthest hg hn⟩
    · refine ⟨Failure.isFurthest_of_mem hf fun k hk => ?_, hn f hf⟩
      have := hfar.le k hk
      omega

/-- A mismatch is told for the failure that got furthest. -/
theorem Composed.mismatch_furthest (hs : s.Composed) (hr : r.Composed) {text : String} {l : Limits}
    {p : Position} {expected : List Expected} {found : Option String}
    (h : r.parseWith s text l = some (.error (.mismatch p expected found)) ∨
      r.parseAllWith s text l = some (.error (.mismatch p expected found))) :
    ∃ f, Failure.IsFurthest (Event.failures (r.evaluation s text l)) f ∧
      Event.Sound text.toList (r.evaluation s text l) ∧ f.expected.Nodup ∧ f.expected = expected ∧
      ((Cursor.start text.toList).advance f.offset).position = p := by
  obtain ⟨x, hx, hrep⟩ := parse_reported h
  generalize he : ParseError.mismatch p expected found = e at hrep
  cases hrep with
  | fault f b => cases he
  | leftover m b => cases he
  | failure f b =>
    obtain ⟨⟨_, hclosed, hsound⟩, hb⟩ := hr.run_told hs hx
    obtain ⟨hp, hexpected, _⟩ := ParseError.mismatch.inj he
    have hf := Event.mem_failures.2 ⟨r, _, hclosed⟩
    obtain ⟨hfar, hn⟩ := deeper_furthest hf fun g hg => (hsound g hg).nodup
    rw [hb] at hp hexpected
    exact ⟨_, hfar, hsound, hn, hexpected.symm, hp.symm⟩
  | stopped hf hm =>
    obtain ⟨⟨_, _, hsound⟩, hb⟩ := hr.run_told hs hx
    obtain ⟨hp, hexpected, _⟩ := ParseError.mismatch.inj he
    rw [hf] at hb
    have hn := Failure.nodup_furthest hb.symm fun g hg => (hsound g hg).nodup
    exact ⟨_, Failure.isFurthest_furthest hb.symm, hsound, hn, hexpected.symm, hp.symm⟩

/-- Where a mismatch is reported, nothing stands of what is expected, each label is that of a rule
that failed there, and each expectation is told once. Nothing is expected only where a choice had no
alternatives. -/
theorem mismatch_truthful (hs : s.Composed) (hr : r.Composed) {text : String} {l : Limits}
    {p : Position} {expected : List Expected} {found : Option String}
    (h : r.parseWith s text l = some (.error (.mismatch p expected found)) ∨
      r.parseAllWith s text l = some (.error (.mismatch p expected found))) :
    ∃ d : Cursor, d.source = text.toList ∧ d.offset = p.offset ∧
      Text.slice? p.offset (Text.byteLength text.toList) text.toList = some d.after ∧
      (∀ e ∈ expected, e.Unmet (r.evaluation s text l) d) ∧ expected.Nodup ∧
      (expected = [] →
        .opened (.choice []) d ∈ r.evaluation s text l ∧ r.Contains s (.choice [])) := by
  obtain ⟨f, hfar, hsound, hn, rfl, rfl⟩ := hr.mismatch_furthest hs h
  obtain ⟨g, hg, hgf, hsub⟩ := hfar.attained
  -- No failure among the furthest ones is surpassed.
  have hlast {g : Failure} (hgf : g.offset = f.offset) :
      ¬ g.Surpassed (r.evaluation s text l) := by
    rintro ⟨k, hk, hlt⟩
    have := hfar.le k hk
    omega
  have hboundary : Text.IsBoundary text.toList f.offset :=
    hgf ▸ (hr.trace_failures hs (c := .start text.toList) hg).isBoundary
  have hd : ((Cursor.start text.toList).advance f.offset).source = text.toList :=
    Cursor.source_advance _ _
  have ho : ((Cursor.start text.toList).advance f.offset).offset = f.offset :=
    Cursor.advance_start_offset hboundary
  have hslice := ((Cursor.start text.toList).advance f.offset).slice?_after
  rw [hd] at hslice
  refine ⟨_, hd, rfl, hslice, ?_, hn, ?_⟩
  · intro e he
    obtain ⟨k, hk, hkf, hek⟩ := hfar.expected e he
    have hunmet := (hsound k hk).unmet.resolve_left (hlast hkf)
    exact hunmet _ hd (ho.trans hkf.symm) e hek
  · intro hnil
    have hgnil : g.expected = [] := List.subset_nil.1 (hnil ▸ hsub)
    obtain ⟨d, hsource, hoffset, hopened⟩ :=
      ((hsound g hg).vacuous hgnil).resolve_left (hlast hgf)
    obtain rfl := Cursor.eq_of_offset (hsource.trans hd.symm) ((hoffset.trans hgf).trans ho.symm)
    exact ⟨hopened, hr.trace_contains hs hopened⟩

/-- A label among pooled expectations behind a wide character, and a choice of nothing. -/
theorem mismatch_truthful_pooled :
    (∃ d : Cursor, d.offset = 2 ∧ (Expected.label "tail").Unmet
      (evaluation .empty (.choice [.sequence [.literal "é",
        .label (.choice [.literal "b", .endOfInput]) "tail"], .literal "x"]) "éc" .standard) d) ∧
    Contains .empty (.optional (.label (.sequence [.literal "a", .choice []]) "n"))
      (.choice []) := by
  have h : parseWith .empty (.choice [.sequence [.literal "é",
      .label (.choice [.literal "b", .endOfInput]) "tail"], .literal "x"]) "éc" .standard =
      some (.error (.mismatch ⟨2, 1, 2⟩ [.literal "b", .endOfInput, .label "tail"] (some "c"))) :=
        rfl
  have h' : parseAllWith .empty (.optional (.label (.sequence [.literal "a", .choice []]) "n")) "ab"
      .standard = some (.error (.mismatch ⟨1, 1, 2⟩ [] (some "b"))) := rfl
  obtain ⟨d, _, hd, _, hunmet, _⟩ := mismatch_truthful (by decide) (by decide) (.inl h)
  obtain ⟨_, _, _, _, _, _, hnil⟩ := mismatch_truthful (by decide) (by decide) (.inr h')
  exact ⟨⟨d, hd, hunmet _ (by decide)⟩, (hnil rfl).2⟩

end Rule

end Descent
